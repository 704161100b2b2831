import DistributedMQ.Raft.Static
import Mathlib.Data.List.Perm.Subperm

/-!
# A fresh cluster never elects a leader

`RequestVote` grants a vote only if the voter's own log is *strictly ahead* of
the candidate's. In a cluster started on empty directories every log is the
sentinel, nobody is ahead of anybody, and without a leader no log ever grows.

- `FreshProc members p`: no leader, no log, nothing to send; every election
  stays at the candidate's own vote.
- `Message.Harmless`: what such processes put on the wire.
- `Proc.step_fresh`: both are kept by every step of a process; `fresh_run`: so
  they hold in every state a fresh cluster reaches.
- `no_leader_from_fresh`: with at least two members, no run whatsoever reaches a
  leader.
-/

namespace DistributedMQ.Raft

open RaftNode Machine

/-- Nothing but empty logs has been saved. -/
structure FreshDisk (d : Disk) : Prop where
  state : ∀ st ∈ d.stateFile, st.commitIndex = 0 ∧ st.configState = .stable
  log : ∀ bytes ∈ d.logFile, bytes.values = []

/-- The node has an empty log, peers to ask, and does not lead. -/
structure FreshNode (r : RaftNode) : Prop where
  state : r.state ≠ .leader
  log : r.log.elems = [sentinel]
  commitIndex : r.commitIndex = 0
  voters : r.nonLearnerPeers ≠ []
  stable : r.configState = .stable
  disk : FreshDisk r.disk

/-- The candidate has an empty log and only its own vote. -/
structure FreshElection (e : Election) : Prop where
  stable : e.configState = .stable
  votes : e.votes = 1
  voters : e.nonLearnerPeers ≠ []
  lastLogIndex : e.args.lastLogIndex = 0
  lastLogTerm : e.args.lastLogTerm = 0

structure FreshProc (members : List String) (p : Proc) : Prop where
  node : FreshNode p.node
  self : ∃ a ∈ members, a ≠ p.node.selfAddr
  peerList : p.peerList = members
  elections : ∀ e ∈ p.elections, FreshElection e
  appends : p.appends = []
  snapshots : p.snapshots = []
  snapshotsDue : p.snapshotsDue = []
  changes : p.changes = []

/-- A message of a cluster in which nobody leads: requests of candidates with
empty logs and refusals. -/
def Message.Harmless : Message → Prop
  | .voteRequest _ _ _ args => args.lastLogIndex = 0 ∧ args.lastLogTerm = 0
  | .voteReply _ _ _ reply => reply.voteGranted = false
  | .appendRequest _ _ _ _ => False
  | .snapshotRequest _ _ _ _ => False
  | .appendReply _ _ _ => True
  | .snapshotReply _ _ _ => True

/-! ## The node's operations -/

theorem FreshNode.peers_ne_nil {r : RaftNode} (h : FreshNode r) : r.peers.keys ≠ [] := by
  intro hnil
  refine h.voters ?_
  have hentries : r.peers.entries = [] := List.map_eq_nil_iff.mp hnil
  unfold nonLearnerPeers
  rw [hentries]
  rfl

theorem FreshNode.len_eq {r : RaftNode} (h : FreshNode r) : r.log.len = 1 := by
  unfold GoSlice.len
  rw [h.log]
  rfl

theorem FreshNode.lastIndex_eq {r : RaftNode} (h : FreshNode r) : r.lastIndex = 0 := by
  unfold lastIndex
  rw [h.len_eq]

theorem FreshNode.lastTerm_eq {r : RaftNode} (h : FreshNode r) : r.termAt r.lastIndex = 0 := by
  rw [h.lastIndex_eq]
  unfold termAt
  rw [h.log]
  rfl

/-- Saving an empty log appends nothing to the log file. -/
theorem FreshNode.saveState {r : RaftNode} (h : FreshNode r) : FreshNode r.saveState := by
  refine ⟨by simpa using h.state, by simpa using h.log, by simpa using h.commitIndex, ?_,
    by simpa using h.stable, ?_⟩
  · show ((r.saveState.peers.entries.filter _).map _) ≠ []
    rw [saveState_peers]
    exact h.voters
  · unfold RaftNode.saveState
    split
    · exact h.disk
    · rename_i hdir
      unfold appendLogEntries
      rw [if_neg hdir]
      constructor
      · intro st hst
        obtain rfl : r.savedState = st := by simpa using hst
        exact ⟨h.commitIndex, h.stable⟩
      · intro bytes hb
        have hold : (r.disk.logFile.map GobBytes.values).getD [] = [] := by
          cases hlog : r.disk.logFile with
          | none => rfl
          | some b => exact h.disk.log b hlog
        -- there is nothing behind the sentinel
        have hnew : r.log.elems.drop (r.persistedIndex + 1) = [] := by
          rw [h.log]
          exact List.drop_eq_nil_of_le (by simp)
        obtain rfl : (⟨(r.disk.logFile.map GobBytes.values).getD [] ++
            r.log.elems.drop (r.persistedIndex + 1)⟩ : GobBytes) = bytes := by simpa using hb
        rw [hold, hnew]
        rfl

theorem FreshNode.becomeFollower {r : RaftNode} (h : FreshNode r) (term : ℕ) :
    FreshNode (r.becomeFollower term) :=
  FreshNode.saveState ⟨by simp [closePending], h.log, h.commitIndex, h.voters, h.stable, h.disk⟩

theorem FreshNode.observeTerm {r : RaftNode} (h : FreshNode r) (term : ℕ) :
    FreshNode (r.observeTerm term) := by
  unfold RaftNode.observeTerm
  split
  · exact h.becomeFollower term
  · exact h

/-- The election of a fresh node starts, and does not end at once. -/
theorem FreshNode.startElection {r : RaftNode} (h : FreshNode r) (id : ℕ) :
    FreshNode (r.startElection id).1 ∧ (r.startElection id).1.selfAddr = r.selfAddr ∧
      ∃ e, (r.startElection id).2 = some e ∧ FreshElection e := by
  unfold RaftNode.startElection
  rw [if_neg h.peers_ne_nil]
  refine ⟨FreshNode.saveState ⟨by simp [campaign], h.log, h.commitIndex, h.voters, h.stable, h.disk⟩,
    by simp [campaign], _, rfl, h.stable, rfl, h.voters, h.lastIndex_eq, h.lastTerm_eq⟩

/-- A voter with an empty log is not strictly ahead of anybody. -/
theorem FreshNode.grants_eq_false {r : RaftNode} (h : FreshNode r) (args : RequestVoteArgs) :
    r.grants args = false := by
  have hlog : r.isLogUpToDate args.lastLogIndex args.lastLogTerm = false := by
    unfold isLogUpToDate
    rw [h.lastTerm_eq, h.lastIndex_eq]
    simp
  unfold grants
  rw [hlog, Bool.and_false]

theorem FreshNode.requestVote {r : RaftNode} (h : FreshNode r) (args : RequestVoteArgs) :
    FreshNode (r.requestVote args).1 ∧ (r.requestVote args).2.voteGranted = false ∧
      (r.requestVote args).1.selfAddr = r.selfAddr := by
  unfold RaftNode.requestVote
  split
  · exact ⟨h, rfl, rfl⟩
  · dsimp only
    rw [(h.observeTerm args.term).grants_eq_false args]
    exact ⟨h.observeTerm args.term, rfl, (calm_observeTerm r args.term).selfAddr⟩

/-- Without a granted vote the tally stays as it is. -/
theorem FreshNode.handleVoteReply {r : RaftNode} (h : FreshNode r) {e : Election}
    (he : FreshElection e) (peer : String) {reply : RequestVoteReply}
    (hreply : reply.voteGranted = false) :
    FreshNode (r.handleVoteReply e peer reply).1 ∧
      (r.handleVoteReply e peer reply).1.selfAddr = r.selfAddr ∧
      FreshElection (r.handleVoteReply e peer reply).2 := by
  have hdone : FreshElection { e with waiting := e.waiting.erase peer } :=
    ⟨he.stable, he.votes, he.voters, he.lastLogIndex, he.lastLogTerm⟩
  unfold RaftNode.handleVoteReply
  rw [hreply]
  split
  · rename_i hterm
    exact ⟨h.becomeFollower reply.term, (calm_becomeFollower hterm).selfAddr, hdone⟩
  · simp only [Bool.false_eq_true, and_false, if_false]
    exact ⟨h, trivial, hdone⟩

theorem FreshNode.applyCommittedEntries {r : RaftNode} (h : FreshNode r) :
    r.applyCommittedEntries = (r, true) := by
  unfold RaftNode.applyCommittedEntries
  rw [h.commitIndex, Nat.zero_sub]
  rfl

/-! ## Starting a node -/

section start

variable [GrowthPolicy]

/-- What is read from a fresh disk: possibly a term and a vote, never a log. -/
theorem loadState_fresh {r : RaftNode} (hdisk : FreshDisk r.disk) (hlog : r.log.elems = [sentinel])
    (hcommit : r.commitIndex = 0) (hstable : r.configState = .stable) :
    r.loadState.log.elems = [sentinel] ∧ r.loadState.commitIndex = 0 ∧
      r.loadState.configState = .stable := by
  unfold loadState
  split
  · exact ⟨hlog, hcommit, hstable⟩
  · split
    · exact ⟨hlog, hcommit, hstable⟩
    · rename_i st hst
      obtain ⟨hci, hcs⟩ := hdisk.state st hst
      unfold loadLogEntries
      dsimp only
      split
      · exact ⟨hlog, hci, hcs⟩
      · rename_i bytes hb
        rw [if_pos (hdisk.log bytes hb)]
        exact ⟨hlog, hci, hcs⟩

theorem freshNode_newRaftNode {self : String} {peers : List String} {dir : String} {disk : Disk}
    (hdisk : FreshDisk disk) (hpeer : ∃ a ∈ peers, a ≠ self) :
    FreshNode (newRaftNode self peers dir disk) := by
  obtain ⟨ps, cc₀, isr₀, hadd⟩ := addPeers_shape self peers (blankNode self dir disk)
  obtain ⟨hlog, hcommit, hstable⟩ : (newRaftNode self peers dir disk).log.elems = [sentinel] ∧
      (newRaftNode self peers dir disk).commitIndex = 0 ∧
      (newRaftNode self peers dir disk).configState = .stable := by
    unfold newRaftNode
    rw [hadd]
    exact loadState_fresh hdisk rfl rfl rfl
  refine ⟨?_, hlog, hcommit, ?_, hstable, ?_⟩
  · rw [newRaftNode_state]
    decide
  · -- the peer list names somebody else, and nobody on it is a learner
    obtain ⟨a, ha, hne⟩ := hpeer
    have hmem : a ∈ (addPeers self (blankNode self dir disk) peers).peers.keys :=
      (mem_peers_addPeers self peers _ a).mpr (Or.inr ⟨ha, hne⟩)
    obtain ⟨q, hq, rfl⟩ := List.mem_map.mp hmem
    have hvoting := voting_addPeers self peers (blankNode self dir disk) (by simp [blankNode]) q hq
    have hvoter : q.1 ∈ (newRaftNode self peers dir disk).nonLearnerPeers := by
      rw [nonLearnerPeers, newRaftNode_peers]
      exact List.mem_map.mpr ⟨q, List.mem_filter.mpr ⟨hq, by rw [hvoting]; rfl⟩, rfl⟩
    exact List.ne_nil_of_mem hvoter
  · rwa [newRaftNode_disk]

theorem freshProc_restart {members : List String} {p : Proc} (h : FreshProc members p)
    {r : RaftNode} (hr : FreshNode r) (hself : r.selfAddr = p.node.selfAddr) :
    FreshProc members { p with node := r }.restart := by
  obtain ⟨a, ha, hne⟩ := h.self
  refine ⟨freshNode_newRaftNode hr.disk ⟨a, ?_, ?_⟩, ⟨a, ha, ?_⟩, h.peerList, ?_, rfl, rfl, rfl, rfl⟩
  · exact h.peerList.symm ▸ ha
  · exact hself.symm ▸ hne
  · show a ≠ (newRaftNode r.selfAddr p.peerList r.dataDir r.disk).selfAddr
    rw [newRaftNode_selfAddr, hself]
    exact hne
  · rintro e ⟨⟩

end start

/-! ## Steps -/

section steps

variable {members : List String}

/-- The node of a fresh process may move to another fresh node. -/
theorem FreshProc.setNode {p : Proc} (h : FreshProc members p) {r : RaftNode} (hr : FreshNode r)
    (hself : r.selfAddr = p.node.selfAddr) : FreshProc members { p with node := r } where
  node := hr
  self := hself.symm ▸ h.self
  peerList := h.peerList
  elections := h.elections
  appends := h.appends
  snapshots := h.snapshots
  snapshotsDue := h.snapshotsDue
  changes := h.changes

theorem FreshProc.setElections {p : Proc} (h : FreshProc members p) {es : List Election}
    (hes : ∀ e ∈ es, FreshElection e) : FreshProc members { p with elections := es } :=
  { h with elections := hes }

theorem FreshProc.startElection {p p' : Proc} {out : List Message} (h : FreshProc members p)
    (hp : p.startElection = (p', out)) : FreshProc members p' ∧ ∀ m ∈ out, m.Harmless := by
  obtain ⟨hnode, hself, e, he, hfresh⟩ := h.node.startElection p.nextId
  unfold Proc.startElection at hp
  rw [show p.node.startElection p.nextId = ((p.node.startElection p.nextId).1, some e) from
    Prod.ext rfl he] at hp
  obtain ⟨rfl, rfl⟩ := Prod.mk.inj hp
  have helections : ∀ e' ∈ p.elections ++ [e], FreshElection e' := by
    intro e' he'
    rcases List.mem_append.mp he' with he' | he'
    · exact h.elections e' he'
    · rw [List.mem_singleton.mp he']
      exact hfresh
  refine ⟨?_, fun m hm => ?_⟩
  · exact { (h.setNode hnode hself) with elections := helections }
  · obtain ⟨peer, -, rfl⟩ := List.mem_map.mp hm
    exact ⟨hfresh.lastLogIndex, hfresh.lastLogTerm⟩

variable [GrowthPolicy]

/-- **One step** of a fresh process that is handed nothing but harmless
messages. Every event of a leader finds nothing to do. -/
theorem Proc.step_fresh {p p' : Proc} {ev : Event} {out : List Message} {i : String}
    (h : FreshProc members p) (hin : ∀ m ∈ ev.input i, m.Harmless)
    (hst : p.step ev = some (p', out)) : FreshProc members p' ∧ ∀ m ∈ out, m.Harmless := by
  have hlead : p.node.state ≠ .leader := h.node.state
  -- a leader's events and the replies to its calls find nothing to do
  cases step_cases hst with
  | leaderTimeout hlead' => exact absurd hlead' hlead
  | electionTimeout _ => exact h.startElection rfl
  | electionOver id e hfind hdone hover =>
    exact ⟨h.setElections fun e' he' => h.elections e' (List.mem_of_mem_filter he'), by simp⟩
  | electionRetry id e hfind hdone hcand =>
    exact (h.setElections fun e' he' => h.elections e' (List.mem_of_mem_filter he')).startElection
      rfl
  | requestVote caller id args =>
    obtain ⟨hr, hno, hself⟩ := h.node.requestVote args
    refine ⟨h.setNode hr hself, fun m hm => ?_⟩
    rw [List.mem_singleton.mp hm]
    exact hno
  | voteFailed id peer => exact ⟨h, by simp [Message.Harmless]⟩
  | voteReply id peer reply e hfind hpeer =>
    obtain ⟨hr, hself, he⟩ := h.node.handleVoteReply
      (h.elections e (List.mem_of_find?_eq_some hfind)) peer (hin _ rfl)
    refine ⟨{ (h.setNode hr hself) with elections := fun e' he' => ?_ }, by simp⟩
    obtain ⟨e₀, he₀, rfl⟩ := List.mem_map.mp he'
    split
    · exact he
    · exact h.elections e₀ he₀
  | sendAppendEntries peer hpeer =>
    have hsend : p.onSendAppendEntries peer = p := by
      unfold onSendAppendEntries RaftNode.sendAppendEntries
      rw [if_neg hlead]
    rw [hsend]
    exact ⟨h, by simp⟩
  | marshal id c hfind hsent =>
    rw [h.appends] at hfind
    cases hfind
  | appendEntries caller id args => exact (hin _ rfl).elim
  | appendFailed id => exact ⟨h, by simp [Message.Harmless]⟩
  | appendReply id reply c hfind =>
    rw [h.appends] at hfind
    cases hfind
  | sendSnapshot peer args hdue hargs =>
    rw [h.snapshotsDue] at hdue
    exact absurd hdue List.not_mem_nil
  | noSnapshot peer hdue hnone =>
    rw [h.snapshotsDue] at hdue
    exact absurd hdue List.not_mem_nil
  | installSnapshot caller id args => exact (hin _ rfl).elim
  | snapshotFailed id => exact ⟨h, by simp [Message.Harmless]⟩
  | snapshotReply id reply c hfind =>
    rw [h.snapshots] at hfind
    cases hfind
  | submitCommand topic partition data =>
    have hsame : (p.node.submitCommand topic partition data).1 = p.node := by
      unfold submitCommand
      rw [if_neg hlead]
    rw [hsame]
    exact ⟨h, by simp⟩
  | applyCommittedEntries =>
    rw [h.node.applyCommittedEntries]
    exact ⟨{ h with }, by simp⟩
  | checkISR =>
    have hsame : p.node.checkISR = p.node := if_neg hlead
    rw [hsame]
    exact ⟨h, by simp⟩
  | addNode addr hok =>
    obtain ⟨u, hok⟩ := hok
    unfold addNode at hok
    rw [if_pos hlead] at hok
    cases hok
  | removeNode addr hok =>
    obtain ⟨u, hok⟩ := hok
    unfold removeNode at hok
    rw [if_pos hlead] at hok
    cases hok
  | changeConfig addr add hmem =>
    rw [h.changes] at hmem
    exact absurd hmem List.not_mem_nil
  | appendStableConfig =>
    have hsame : p.node.appendStableConfig = p.node := if_pos (Or.inl hlead)
    rw [hsame]
    exact ⟨h, by simp⟩
  | restart => exact ⟨freshProc_restart h h.node rfl, by simp⟩
  | dieServing request term hterm =>
    exact ⟨freshProc_restart h (h.node.observeTerm term)
      (calm_observeTerm p.node term).selfAddr, by simp⟩

/-- Every member is fresh and nothing on the wire can change that. -/
def Fresh (members : List String) (s : Cluster) : Prop :=
  s.members = members ∧ (∀ i ∈ members, FreshProc members (s.procs i)) ∧ ∀ m ∈ s.net, m.Harmless

theorem Fresh.step {s s' : Cluster} {l : String × Event} (h : Fresh members s)
    (hst : s.step l = some s') : Fresh members s' := by
  obtain ⟨i, ev⟩ := l
  obtain ⟨hmem, hprocs, hnet⟩ := h
  obtain ⟨hi, hdel, p, out, hp, rfl⟩ := Cluster.step_inv hst
  obtain ⟨hp', hout⟩ := Proc.step_fresh (hprocs i (hmem ▸ hi))
    (fun m hm => hnet m (hdel m hm).2) hp
  refine ⟨hmem, ?_, fun m hm => ?_⟩
  · exact s.forall_put (P := fun j q => j ∈ members → FreshProc members q) i p out
      (fun _ => hp') fun j _ hj => hprocs j hj
  · rcases List.mem_append.mp hm with hm | hm
    · exact hnet m hm
    · exact hout m hm

theorem fresh_boot (hnd : members.Nodup) (hlen : 2 ≤ members.length)
    (dataDir : String → String) : Fresh members (Cluster.boot members dataDir fun _ => {}) := by
  refine ⟨rfl, fun i _ => ?_, by rintro m ⟨⟩⟩
  -- among two distinct members one differs from `i`
  have hother : ∃ a ∈ members, a ≠ i := by
    by_contra hall
    push Not at hall
    have hsub : members ⊆ [i] := fun a ha => List.mem_singleton.mpr (hall a ha)
    have hle := (hnd.subperm hsub).length_le
    rw [List.length_singleton] at hle
    omega
  have hdisk : FreshDisk {} := ⟨by simp, by simp⟩
  refine ⟨freshNode_newRaftNode hdisk hother, ?_, rfl, by rintro e ⟨⟩, rfl, rfl, rfl, rfl⟩
  show ∃ a ∈ members, a ≠ (newRaftNode i members (dataDir i) {}).selfAddr
  rwa [newRaftNode_selfAddr]

/-- **Whole runs**: whatever happens, a fresh cluster stays fresh. -/
theorem fresh_run {guard : Cluster → String × Event → Cluster → Prop} (hnd : members.Nodup)
    (hlen : 2 ≤ members.length) {dataDir : String → String} {s : Cluster}
    (hrun : Run Cluster.step guard (Cluster.boot members dataDir fun _ => {}) s) :
    Fresh members s :=
  hrun.invariant (fresh_boot hnd hlen dataDir) fun _ _ _ h _ hst => h.step hst

/-- **A fresh cluster of two or more members elects nobody**: no run of any
events, election timeouts and vote requests among them, reaches a state with a
leader. -/
theorem no_leader_from_fresh (hnd : members.Nodup) (hlen : 2 ≤ members.length)
    (dataDir : String → String) :
    ¬ ∃ s, Run Cluster.step (fun _ _ _ => True) (Cluster.boot members dataDir fun _ => {}) s ∧
      ∃ i ∈ members, (s.node i).state = .leader := by
  rintro ⟨s, hrun, i, hi, hlead⟩
  obtain ⟨-, hprocs, -⟩ := fresh_run hnd hlen hrun
  exact (hprocs i hi).node.state hlead

end steps

section traces

open scoped GrowthPolicy

theorem no_leader_from_fresh_three :
    ¬ ∃ s, Run Cluster.step (fun _ _ _ => True)
        (Cluster.boot ["a", "b", "c"] (fun _ => "data") fun _ => {}) s ∧
      ∃ i ∈ ["a", "b", "c"], (s.node i).state = .leader :=
  no_leader_from_fresh (by decide) (by decide) fun _ => "data"

/-- Two fresh nodes: neither ever leads. -/
theorem two_fresh_nodes_never_elect :
    ¬ ∃ s, Run Cluster.step (fun _ _ _ => True)
        (Cluster.boot ["a", "b"] (fun _ => "data") fun _ => {}) s ∧
      ((s.node "a").state = .leader ∨ (s.node "b").state = .leader) := by
  rintro ⟨s, hrun, hlead⟩
  obtain ⟨-, hprocs, -⟩ := fresh_run (by decide) (by decide) hrun
  rcases hlead with ha | hb
  · exact (hprocs "a" (by decide)).node.state ha
  · exact (hprocs "b" (by decide)).node.state hb

end traces

end DistributedMQ.Raft
