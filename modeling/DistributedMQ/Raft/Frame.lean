import DistributedMQ.Raft.Process

/-!
# What the node's operations leave alone

Every operation is first put into the form "the old node with these fields
replaced" (`saveState_shape`, `applyLoop_shape`, `commitLoop_shape`), so that
what it does not touch can be read off. From the shapes:

- `VoteMove r r'`: all an operation other than an election step can do to the
  node's state, term and vote is to keep them or to step down into a newer
  term.
- `Durable r`: the term and vote on disk are the ones in memory. Every
  operation that changes one of them saves before it ends.
-/

namespace DistributedMQ.Raft

namespace RaftNode

/-! ## Shapes -/

theorem saveState_shape (r : RaftNode) :
    ∃ d p, r.saveState = { r with disk := d, persistedIndex := p } := by
  unfold saveState appendLogEntries
  by_cases h : r.dataDir = ""
  · rw [if_pos h]
    exact ⟨r.disk, r.persistedIndex, rfl⟩
  · simp only [h, if_false]
    exact ⟨_, _, rfl⟩

section saveState

variable (r : RaftNode)

@[simp] theorem saveState_state : r.saveState.state = r.state := by
  obtain ⟨d, p, h⟩ := r.saveState_shape; rw [h]

@[simp] theorem saveState_currentTerm : r.saveState.currentTerm = r.currentTerm := by
  obtain ⟨d, p, h⟩ := r.saveState_shape; rw [h]

@[simp] theorem saveState_votedFor : r.saveState.votedFor = r.votedFor := by
  obtain ⟨d, p, h⟩ := r.saveState_shape; rw [h]

@[simp] theorem saveState_log : r.saveState.log = r.log := by
  obtain ⟨d, p, h⟩ := r.saveState_shape; rw [h]

@[simp] theorem saveState_commitIndex : r.saveState.commitIndex = r.commitIndex := by
  obtain ⟨d, p, h⟩ := r.saveState_shape; rw [h]

@[simp] theorem saveState_lastApplied : r.saveState.lastApplied = r.lastApplied := by
  obtain ⟨d, p, h⟩ := r.saveState_shape; rw [h]

@[simp] theorem saveState_nextIndex : r.saveState.nextIndex = r.nextIndex := by
  obtain ⟨d, p, h⟩ := r.saveState_shape; rw [h]

@[simp] theorem saveState_matchIndex : r.saveState.matchIndex = r.matchIndex := by
  obtain ⟨d, p, h⟩ := r.saveState_shape; rw [h]

@[simp] theorem saveState_peers : r.saveState.peers = r.peers := by
  obtain ⟨d, p, h⟩ := r.saveState_shape; rw [h]

@[simp] theorem saveState_selfAddr : r.saveState.selfAddr = r.selfAddr := by
  obtain ⟨d, p, h⟩ := r.saveState_shape; rw [h]

@[simp] theorem saveState_applyCh : r.saveState.applyCh = r.applyCh := by
  obtain ⟨d, p, h⟩ := r.saveState_shape; rw [h]

@[simp] theorem saveState_dataDir : r.saveState.dataDir = r.dataDir := by
  obtain ⟨d, p, h⟩ := r.saveState_shape; rw [h]

@[simp] theorem saveState_pendingCommit : r.saveState.pendingCommit = r.pendingCommit := by
  obtain ⟨d, p, h⟩ := r.saveState_shape; rw [h]

@[simp] theorem saveState_chansClosed : r.saveState.chansClosed = r.chansClosed := by
  obtain ⟨d, p, h⟩ := r.saveState_shape; rw [h]

@[simp] theorem saveState_chansMade : r.saveState.chansMade = r.chansMade := by
  obtain ⟨d, p, h⟩ := r.saveState_shape; rw [h]

@[simp] theorem saveState_currentConfig : r.saveState.currentConfig = r.currentConfig := by
  obtain ⟨d, p, h⟩ := r.saveState_shape; rw [h]

@[simp] theorem saveState_newConfig : r.saveState.newConfig = r.newConfig := by
  obtain ⟨d, p, h⟩ := r.saveState_shape; rw [h]

@[simp] theorem saveState_configState : r.saveState.configState = r.configState := by
  obtain ⟨d, p, h⟩ := r.saveState_shape; rw [h]

end saveState

/-- `becomeFollower` touches the vote, the commit channels and the disk. -/
theorem becomeFollower_shape (r : RaftNode) (term : ℕ) :
    ∃ d p, r.becomeFollower term =
      { r.closePending with
        state := .follower, currentTerm := term, votedFor := "", disk := d,
        persistedIndex := p } := by
  obtain ⟨d, p, h⟩ := (closePending { r with
    state := .follower, currentTerm := term, votedFor := "" }).saveState_shape
  exact ⟨d, p, h⟩

theorem normalizeNext_shape (r : RaftNode) (peer : String) :
    ∃ ni, r.normalizeNext peer = { r with nextIndex := ni } := by
  unfold normalizeNext
  split
  · exact ⟨_, rfl⟩
  · exact ⟨r.nextIndex, rfl⟩

theorem addLearner_shape (r : RaftNode) (addr : String) :
    ∃ ps isr ni mi, r.addLearner addr =
      { r with peers := ps, isr := isr, nextIndex := ni, matchIndex := mi } := by
  unfold addLearner
  split
  · exact ⟨r.peers, r.isr, r.nextIndex, r.matchIndex, rfl⟩
  · exact ⟨_, _, _, _, rfl⟩

theorem dropPeer_shape (r : RaftNode) (addr : String) :
    ∃ ps isr ni mi, r.dropPeer addr =
      { r with peers := ps, isr := isr, nextIndex := ni, matchIndex := mi } := by
  unfold dropPeer
  split
  · exact ⟨r.peers, r.isr, r.nextIndex, r.matchIndex, rfl⟩
  · exact ⟨_, _, _, _, rfl⟩

/-- A fold of operations that each replace the peer maps replaces the peer maps. -/
theorem foldl_shape {f : RaftNode → String → RaftNode}
    (hf : ∀ r a, ∃ ps isr ni mi, f r a =
      { r with peers := ps, isr := isr, nextIndex := ni, matchIndex := mi })
    (addrs : List String) :
    ∀ r, ∃ ps isr ni mi, addrs.foldl f r =
      { r with peers := ps, isr := isr, nextIndex := ni, matchIndex := mi } := by
  induction addrs with
  | nil => exact fun r => ⟨r.peers, r.isr, r.nextIndex, r.matchIndex, rfl⟩
  | cons a addrs ih =>
    intro r
    obtain ⟨ps, isr, ni, mi, h⟩ := hf r a
    obtain ⟨ps', isr', ni', mi', h'⟩ := ih (f r a)
    refine ⟨ps', isr', ni', mi', ?_⟩
    rw [List.foldl_cons, h', h]

theorem applyEntry_shape (r : RaftNode) (entry : LogEntry) :
    ∃ ch ps isr ni mi cc nc cs, r.applyEntry entry =
      { r with
        applyCh := ch, peers := ps, isr := isr, nextIndex := ni, matchIndex := mi,
        currentConfig := cc, newConfig := nc, configState := cs } := by
  unfold applyEntry
  split
  · unfold applyConfigChangeLocked
    split
    · obtain ⟨ps, isr, ni, mi, h⟩ := foldl_shape addLearner_shape _ _
      exact ⟨_, ps, isr, ni, mi, _, _, _, h⟩
    · obtain ⟨ps, isr, ni, mi, h⟩ := foldl_shape dropPeer_shape _ _
      exact ⟨_, ps, isr, ni, mi, _, _, _, h⟩
    · exact ⟨r.applyCh, r.peers, r.isr, r.nextIndex, r.matchIndex, r.currentConfig,
        r.newConfig, r.configState, rfl⟩
  · exact ⟨_, r.peers, r.isr, r.nextIndex, r.matchIndex, r.currentConfig, r.newConfig,
      r.configState, rfl⟩

theorem applyLoop_shape :
    ∀ (k : ℕ) (r : RaftNode), ∃ la ch ps isr ni mi cc nc cs, (applyLoop k r).1 =
      { r with
        lastApplied := la, applyCh := ch, peers := ps, isr := isr, nextIndex := ni,
        matchIndex := mi, currentConfig := cc, newConfig := nc, configState := cs } := by
  intro k
  induction k with
  | zero =>
    exact fun r => ⟨r.lastApplied, r.applyCh, r.peers, r.isr, r.nextIndex, r.matchIndex,
      r.currentConfig, r.newConfig, r.configState, rfl⟩
  | succ k ih =>
    intro r
    unfold applyLoop
    cases r.log.elems[r.lastApplied + 1]? with
    | none =>
      exact ⟨r.lastApplied + 1, r.applyCh, r.peers, r.isr, r.nextIndex, r.matchIndex,
        r.currentConfig, r.newConfig, r.configState, rfl⟩
    | some entry =>
      obtain ⟨ch, ps, isr, ni, mi, cc, nc, cs, h⟩ :=
        applyEntry_shape { r with lastApplied := r.lastApplied + 1 } entry
      obtain ⟨la', ch', ps', isr', ni', mi', cc', nc', cs', h'⟩ :=
        ih ({ r with lastApplied := r.lastApplied + 1 }.applyEntry entry)
      refine ⟨la', ch', ps', isr', ni', mi', cc', nc', cs', ?_⟩
      show (applyLoop k ({ r with lastApplied := r.lastApplied + 1 }.applyEntry entry)).1 = _
      rw [h', h]

theorem commitTo_shape (r : RaftNode) (n : ℕ) :
    ∃ pc cc, r.commitTo n = { r with commitIndex := n, pendingCommit := pc, chansClosed := cc } := by
  unfold commitTo
  cases r.pendingCommit.lookup n with
  | none => exact ⟨r.pendingCommit, r.chansClosed, rfl⟩
  | some ch => exact ⟨_, _, rfl⟩

theorem commitLoop_shape :
    ∀ (k : ℕ) (r : RaftNode), ∃ n pc cc, commitLoop k r =
      { r with commitIndex := n, pendingCommit := pc, chansClosed := cc } := by
  intro k
  induction k with
  | zero => exact fun r => ⟨r.commitIndex, r.pendingCommit, r.chansClosed, rfl⟩
  | succ k ih =>
    intro r
    unfold commitLoop
    dsimp only
    split
    · obtain ⟨pc, cc, h⟩ := r.commitTo_shape (r.commitIndex + 1)
      obtain ⟨n', pc', cc', h'⟩ := ih (r.commitTo (r.commitIndex + 1))
      refine ⟨n', pc', cc', ?_⟩
      rw [h', h]
    · exact ⟨r.commitIndex, r.pendingCommit, r.chansClosed, rfl⟩

theorem acceptEntries_shape [GrowthPolicy] (r : RaftNode) (args : AppendEntriesArgs) :
    ∃ ci la ch ps isr ni mi cc nc cs, r.acceptEntries args = saveState
      { r with
        log := r.log.splice LogEntry.term (args.prevLogIndex + 1) args.entries
        commitIndex := ci, lastApplied := la, applyCh := ch, peers := ps, isr := isr,
        nextIndex := ni, matchIndex := mi, currentConfig := cc, newConfig := nc,
        configState := cs } := by
  unfold acceptEntries
  dsimp only
  split
  · obtain ⟨la, ch, ps, isr, ni, mi, cc, nc, cs, h⟩ := applyLoop_shape _ _
    exact ⟨_, la, ch, ps, isr, ni, mi, cc, nc, cs, congrArg saveState h⟩
  · exact ⟨r.commitIndex, r.lastApplied, r.applyCh, r.peers, r.isr, r.nextIndex, r.matchIndex,
      r.currentConfig, r.newConfig, r.configState, rfl⟩

/-! ## State, term and vote -/

/-- What an operation outside of elections can do to state, term and vote. -/
inductive VoteMove (r r' : RaftNode) : Prop where
  | stay (hstate : r'.state = r.state) (hterm : r'.currentTerm = r.currentTerm)
      (hvote : r'.votedFor = r.votedFor)
  | down (hstate : r'.state = .follower) (hterm : r.currentTerm < r'.currentTerm)
      (hvote : r'.votedFor = "")

theorem VoteMove.trans {r r' r'' : RaftNode} (h : VoteMove r r') (h' : VoteMove r' r'') :
    VoteMove r r'' := by
  cases h with
  | stay hs ht hv =>
    cases h' with
    | stay hs' ht' hv' => exact .stay (hs'.trans hs) (ht'.trans ht) (hv'.trans hv)
    | down hs' ht' hv' => exact .down hs' (ht ▸ ht') hv'
  | down hs ht hv =>
    cases h' with
    | stay hs' ht' hv' => exact .down (hs'.trans hs) (ht'.symm ▸ ht) (hv'.trans hv)
    | down hs' ht' hv' => exact .down hs' (ht.trans ht') hv'

/-- The term and vote `loadState` would read; those of a blank node if there is
no state file. -/
def savedVote (r : RaftNode) : ℕ × String :=
  (r.disk.stateFile.map fun st => (st.currentTerm, st.votedFor)).getD (0, "")

/-- The term and vote on disk are the ones in memory. -/
def Durable (r : RaftNode) : Prop := r.savedVote = (r.currentTerm, r.votedFor)

theorem durable_saveState {r : RaftNode} (h : r.dataDir ≠ "") : Durable r.saveState := by
  unfold Durable savedVote saveState appendLogEntries
  simp [h, savedState]

/-- `r'` comes from `r` by operations outside of elections. -/
structure Calm (r r' : RaftNode) : Prop where
  move : VoteMove r r'
  selfAddr : r'.selfAddr = r.selfAddr
  dataDir : r'.dataDir = r.dataDir
  durable : r.dataDir ≠ "" → Durable r → Durable r'

theorem Calm.trans {r r' r'' : RaftNode} (h : Calm r r') (h' : Calm r' r'') : Calm r r'' where
  move := h.move.trans h'.move
  selfAddr := h'.selfAddr.trans h.selfAddr
  dataDir := h'.dataDir.trans h.dataDir
  durable hd hr := h'.durable (h.dataDir ▸ hd) (h.durable hd hr)

/-- Replacing fields other than these is calm. -/
theorem Calm.of_eq {r r' : RaftNode} (hstate : r'.state = r.state)
    (hterm : r'.currentTerm = r.currentTerm) (hvote : r'.votedFor = r.votedFor)
    (hself : r'.selfAddr = r.selfAddr) (hdir : r'.dataDir = r.dataDir)
    (hdisk : r'.disk = r.disk) : Calm r r' where
  move := .stay hstate hterm hvote
  selfAddr := hself
  dataDir := hdir
  durable _ hr := by
    unfold Durable savedVote at *
    rw [hdisk, hterm, hvote, hr]

theorem Calm.refl (r : RaftNode) : Calm r r := .of_eq rfl rfl rfl rfl rfl rfl

theorem calm_saveState (r : RaftNode) : Calm r r.saveState where
  move := .stay (by simp) (by simp) (by simp)
  selfAddr := by simp
  dataDir := by simp
  durable hd _ := durable_saveState hd

theorem calm_becomeFollower {r : RaftNode} {term : ℕ} (h : r.currentTerm < term) :
    Calm r (r.becomeFollower term) where
  move := .down (by simp [becomeFollower, closePending]) (by simpa [becomeFollower, closePending])
    (by simp [becomeFollower, closePending])
  selfAddr := by simp [becomeFollower, closePending]
  dataDir := by simp [becomeFollower, closePending]
  durable hd _ := durable_saveState hd

theorem calm_observeTerm (r : RaftNode) (term : ℕ) : Calm r (r.observeTerm term) := by
  unfold observeTerm
  split
  · exact calm_becomeFollower ‹_›
  · exact .refl r

theorem calm_applyLoop (k : ℕ) (r : RaftNode) : Calm r (applyLoop k r).1 := by
  obtain ⟨la, ch, ps, isr, ni, mi, cc, nc, cs, h⟩ := applyLoop_shape k r
  rw [h]
  exact .of_eq rfl rfl rfl rfl rfl rfl

theorem calm_updateCommitIndex (r : RaftNode) : Calm r r.updateCommitIndex := by
  obtain ⟨n, pc, cc, h⟩ := commitLoop_shape r.log.len r
  unfold updateCommitIndex
  rw [h]
  exact .of_eq rfl rfl rfl rfl rfl rfl

theorem calm_handleAppendReply (r : RaftNode) (c : AppendCall) (reply : AppendEntriesReply) :
    Calm r (r.handleAppendReply c reply) := by
  unfold handleAppendReply
  split
  · exact calm_becomeFollower ‹_›
  split
  · exact .refl r
  split
  · refine Calm.trans ?_ (calm_updateCommitIndex _)
    exact .of_eq rfl rfl rfl rfl rfl rfl
  split
  · exact .of_eq rfl rfl rfl rfl rfl rfl
  · exact .refl r

theorem calm_handleSnapshotReply (r : RaftNode) (c : SnapshotCall)
    (reply : InstallSnapshotReply) : Calm r (r.handleSnapshotReply c reply) := by
  unfold handleSnapshotReply
  split
  · exact calm_becomeFollower ‹_›
  split
  · exact .of_eq rfl rfl rfl rfl rfl rfl
  · exact .refl r

theorem calm_checkISR (r : RaftNode) : Calm r r.checkISR := by
  unfold checkISR
  split
  · exact .of_eq rfl rfl rfl rfl rfl rfl
  · exact .refl r

theorem calm_sendAppendEntries (r : RaftNode) (peer : String) (id : ℕ) :
    Calm r (r.sendAppendEntries peer id).1 := by
  unfold sendAppendEntries
  split
  · show Calm r (r.normalizeNext peer)
    obtain ⟨ni, h⟩ := r.normalizeNext_shape peer
    rw [h]
    exact .of_eq rfl rfl rfl rfl rfl rfl
  · exact .refl r

section growth

variable [GrowthPolicy]

theorem calm_acceptEntries (r : RaftNode) (args : AppendEntriesArgs) :
    Calm r (r.acceptEntries args) := by
  obtain ⟨ci, la, ch, ps, isr, ni, mi, cc, nc, cs, h⟩ := acceptEntries_shape r args
  rw [h]
  refine Calm.trans ?_ (calm_saveState _)
  exact .of_eq rfl rfl rfl rfl rfl rfl

theorem calm_appendEntries (r : RaftNode) (args : AppendEntriesArgs) :
    Calm r (r.appendEntries args).1 := by
  unfold appendEntries
  dsimp only
  split
  · exact .refl r
  split
  · exact calm_observeTerm r args.term
  split
  · exact calm_observeTerm r args.term
  · exact (calm_observeTerm r args.term).trans (calm_acceptEntries _ args)

theorem calm_installSnapshot (r : RaftNode) (args : InstallSnapshotArgs) :
    Calm r (r.installSnapshot args).1 := by
  unfold installSnapshot
  dsimp only
  split
  · exact .refl r
  split
  · exact calm_observeTerm r args.term
  · refine (calm_observeTerm r args.term).trans ?_
    refine Calm.trans ?_ (calm_saveState _)
    exact .of_eq rfl rfl rfl rfl rfl rfl

theorem calm_appendOwn (r : RaftNode) (entry : LogEntry) : Calm r (r.appendOwn entry) := by
  refine Calm.trans ?_ (calm_saveState _)
  exact .of_eq rfl rfl rfl rfl rfl rfl

theorem calm_submitCommand (r : RaftNode) (topic : String) (partition : ℤ) (data : List UInt8) :
    Calm r (r.submitCommand topic partition data).1 := by
  unfold submitCommand
  dsimp only
  split
  · refine (calm_appendOwn r (r.commandEntry topic partition data)).trans ?_
    split
    · refine Calm.trans (Calm.trans ?_ (calm_applyLoop _ _)) (.of_eq rfl rfl rfl rfl rfl rfl)
      exact .of_eq rfl rfl rfl rfl rfl rfl
    · exact .of_eq rfl rfl rfl rfl rfl rfl
  · exact .refl r

theorem calm_changeConfig (r : RaftNode) (addr : String) (add : Bool) :
    Calm r (r.changeConfig addr add) := by
  refine Calm.trans ?_ (calm_appendOwn _ _)
  exact .of_eq rfl rfl rfl rfl rfl rfl

theorem calm_appendStableConfig (r : RaftNode) : Calm r r.appendStableConfig := by
  unfold appendStableConfig
  split
  · exact .refl r
  · exact calm_appendOwn r _

end growth

end RaftNode

end DistributedMQ.Raft
