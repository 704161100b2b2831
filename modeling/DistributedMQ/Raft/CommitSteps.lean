import DistributedMQ.Raft.CommitAll
import DistributedMQ.Raft.Deliveries
import DistributedMQ.Raft.InstallSnapshot

/-!
# What a step can do to the commit index

- `CommitEffect p ev r`: the commit index stays and the log only grows, or the
  step is one of those that commit: a leader handles a reply, a follower accepts
  a request, a leader without peers takes a command (`NodeOp.commitEffect`).
- `NodeOp.lastApplied_le`: nothing is applied behind the commit index.
- `RaftNode.DeliveredFrom D`: what has been sent on `applyCh` continues `D` up
  to the last applied entry, also on files that record applied entries.
-/

namespace DistributedMQ.Raft

open RaftNode

namespace RaftNode

variable (r : RaftNode)

/-! ## Operations that leave the commit index alone -/

theorem startElection_commitIndex (id : ℕ) :
    (r.startElection id).1.commitIndex = r.commitIndex := by
  unfold startElection
  split <;> simp [becomeLeader, closePending, campaign]

theorem requestVote_commitIndex (args : RequestVoteArgs) :
    (r.requestVote args).1.commitIndex = r.commitIndex := by
  unfold requestVote
  dsimp only
  split
  · rfl
  split
  · rw [saveState_commitIndex]
    exact r.observeTerm_commitIndex args.term
  · exact r.observeTerm_commitIndex args.term

theorem handleVoteReply_commitIndex (e : Election) (peer : String) (reply : RequestVoteReply) :
    (r.handleVoteReply e peer reply).1.commitIndex = r.commitIndex := by
  unfold handleVoteReply
  dsimp only
  split
  · exact r.becomeFollower_commitIndex reply.term
  split
  · split
    · rfl
    · rfl
  · rfl

theorem normalizeNext_commitIndex (peer : String) :
    (r.normalizeNext peer).commitIndex = r.commitIndex := by
  obtain ⟨ni, h⟩ := r.normalizeNext_shape peer
  rw [h]

theorem handleSnapshotReply_commitIndex (c : SnapshotCall) (reply : InstallSnapshotReply) :
    (r.handleSnapshotReply c reply).commitIndex = r.commitIndex := by
  unfold handleSnapshotReply
  split
  · exact r.becomeFollower_commitIndex reply.term
  split
  · rfl
  · rfl

theorem checkISR_commitIndex : r.checkISR.commitIndex = r.commitIndex := by
  unfold checkISR
  split
  · rfl
  · rfl

theorem applyCommittedEntries_commitIndex :
    r.applyCommittedEntries.1.commitIndex = r.commitIndex := by
  obtain ⟨la, ch, ps, isr, ni, mi, cc, nc, cs, h⟩ :=
    applyLoop_shape (r.commitIndex - r.lastApplied) r
  rw [applyCommittedEntries, h]

/-- A reply never takes a commit back. -/
theorem le_handleAppendReply_commitIndex (c : AppendCall) (reply : AppendEntriesReply) :
    r.commitIndex ≤ (r.handleAppendReply c reply).commitIndex := by
  unfold handleAppendReply
  split
  · exact (r.becomeFollower_commitIndex reply.term).ge
  split
  · exact le_rfl
  split
  · exact le_updateCommitIndex
      { r with
        nextIndex := r.nextIndex.insert c.peer (c.prevLogIndex + c.entries.len + 1)
        matchIndex := r.matchIndex.insert c.peer (c.prevLogIndex + c.entries.len) }
  split
  · exact le_rfl
  · exact le_rfl

variable [GrowthPolicy]

theorem changeConfig_commitIndex (addr : String) (add : Bool) :
    (r.changeConfig addr add).commitIndex = r.commitIndex := by
  simp [changeConfig, appendOwn]

theorem changeConfig_elems (addr : String) (add : Bool) :
    r.log.elems <+: (r.changeConfig addr add).log.elems := by
  simp only [changeConfig, appendOwn, saveState_log, GoSlice.elems_append]
  exact List.prefix_append _ _

theorem appendStableConfig_commitIndex :
    r.appendStableConfig.commitIndex = r.commitIndex := by
  unfold appendStableConfig
  split
  · rfl
  · simp [appendOwn]

theorem appendStableConfig_elems : r.log.elems <+: r.appendStableConfig.log.elems := by
  unfold appendStableConfig
  split
  · exact List.prefix_rfl
  · simp only [appendOwn, saveState_log, GoSlice.elems_append]
    exact List.prefix_append _ _

variable {r}

/-- A leader without peers commits the command it takes. -/
theorem submitCommand_alone (hlead : r.state = .leader) (hpeers : r.peers.keys = [])
    (topic : String) (partition : ℤ) (data : List UInt8) :
    (r.submitCommand topic partition data).1.commitIndex = r.log.len := by
  unfold submitCommand
  rw [if_pos hlead]
  dsimp only
  rw [if_pos (by simpa [appendOwn] using hpeers)]
  exact applyCommittedEntries_commitIndex _

theorem submitCommand_elems (topic : String) (partition : ℤ) (data : List UInt8) :
    r.log.elems <+: (r.submitCommand topic partition data).1.log.elems := by
  by_cases hlead : r.state = .leader
  · rw [(submitCommand_leader hlead topic partition data).1, GoSlice.elems_append]
    exact List.prefix_append _ _
  · unfold submitCommand
    rw [if_neg hlead]

end RaftNode

/-- What a step can be for the commit index of its process. -/
inductive CommitEffect [GrowthPolicy] (p : Proc) (ev : Event) (r : RaftNode) : Prop where
  | stay (hcommit : r.commitIndex = p.node.commitIndex) (hlog : p.node.log.elems <+: r.log.elems)
  /-- A leader counts acknowledgements. -/
  | reply (c : AppendCall) (reply : AppendEntriesReply)
      (hnode : r = p.node.handleAppendReply c reply)
  /-- A follower follows its leader. -/
  | accept (caller : String) (id : ℕ) (args : AppendEntriesArgs)
      (hev : ev = .appendEntries caller id args) (hacc : p.node.Accepts args)
      (hnode : r = (p.node.appendEntries args).1)
  /-- A leader without peers takes a command. -/
  | alone (topic : String) (partition : ℤ) (data : List UInt8) (hlead : p.node.state = .leader)
      (hpeers : p.node.peers.keys = [])
      (hnode : r = (p.node.submitCommand topic partition data).1)
  | snapshot (caller : String) (id : ℕ) (args : InstallSnapshotArgs)
      (hev : ev = .installSnapshot caller id args)
  | reboot (hev : ev.Restarts)

variable [GrowthPolicy] {p : Proc} {ev : Event} {r : RaftNode}

/-- An operation leaves the commit index or moves it in one of these ways. -/
theorem NodeOp.commitEffect (h : NodeOp p ev r) : CommitEffect p ev r := by
  -- most operations leave log and commit index as they are
  have hstay : ∀ {r : RaftNode}, r.commitIndex = p.node.commitIndex → r.log = p.node.log →
      CommitEffect p ev r := fun hcommit hlog => .stay hcommit (hlog ▸ List.prefix_rfl)
  cases h with
  | same => exact hstay rfl rfl
  | startElection _ _ id =>
    exact hstay (p.node.startElection_commitIndex id) (p.node.startElection_log id)
  | requestVote _ _ args =>
    exact hstay (p.node.requestVote_commitIndex args) (p.node.requestVote_log args)
  | voteReply _ peer reply e =>
    exact hstay (p.node.handleVoteReply_commitIndex e peer reply)
      (p.node.handleVoteReply_log e peer reply)
  | sendAppendEntries peer =>
    exact hstay (p.node.normalizeNext_commitIndex peer) (p.node.normalizeNext_log peer)
  | appendEntries caller id args =>
    by_cases hacc : p.node.Accepts args
    · exact .accept caller id args rfl hacc rfl
    · exact hstay (appendEntries_refuse_commitIndex hacc) (appendEntries_refuse hacc).1
  | appendReply _ reply c => exact .reply c reply rfl
  | installSnapshot caller id args => exact .snapshot caller id args rfl
  | snapshotReply _ reply c =>
    exact hstay (p.node.handleSnapshotReply_commitIndex c reply)
      (p.node.handleSnapshotReply_log c reply)
  | submitCommand topic partition data =>
    by_cases hpeers : p.node.state = .leader ∧ p.node.peers.keys = []
    · exact .alone topic partition data hpeers.1 hpeers.2 rfl
    · refine .stay ?_ (submitCommand_elems topic partition data)
      by_contra hne
      refine hpeers ⟨?_, submitCommand_commitIndex hne⟩
      by_contra hlead
      exact hne (by rw [RaftNode.submitCommand, if_neg hlead])
  | applyCommittedEntries =>
    exact hstay p.node.applyCommittedEntries_commitIndex (applyLoop_log _ _)
  | checkISR => exact hstay p.node.checkISR_commitIndex p.node.checkISR_log
  | changeConfig addr add =>
    exact .stay (p.node.changeConfig_commitIndex addr add) (p.node.changeConfig_elems addr add)
  | appendStableConfig =>
    exact .stay p.node.appendStableConfig_commitIndex p.node.appendStableConfig_elems
  | restart _ hev => exact .reboot hev

/-! ## What is applied -/

namespace RaftNode

omit [GrowthPolicy] in
theorem applyLoop_lastApplied_le : ∀ (k : ℕ) (r : RaftNode),
    (applyLoop k r).1.lastApplied ≤ r.lastApplied + k := by
  intro k
  induction k with
  | zero => exact fun _ => le_rfl
  | succ k ih =>
    intro r
    unfold applyLoop
    split
    · exact Nat.add_le_add_left (Nat.succ_le_succ (Nat.zero_le k)) _
    · refine (ih _).trans ?_
      rw [applyEntry_lastApplied]
      show r.lastApplied + 1 + k ≤ r.lastApplied + (k + 1)
      omega

omit [GrowthPolicy] in
theorem applyCommittedEntries_lastApplied_le (r : RaftNode) :
    r.applyCommittedEntries.1.lastApplied ≤ max r.lastApplied r.commitIndex := by
  have hle := applyLoop_lastApplied_le (r.commitIndex - r.lastApplied) r
  unfold applyCommittedEntries
  omega

theorem acceptEntries_lastApplied_le (r : RaftNode) (args : AppendEntriesArgs) :
    (r.acceptEntries args).lastApplied ≤ max r.lastApplied (r.acceptEntries args).commitIndex := by
  unfold acceptEntries
  dsimp only
  rw [saveState_lastApplied, saveState_commitIndex]
  split
  · refine (applyCommittedEntries_lastApplied_le _).trans ?_
    rw [applyCommittedEntries_commitIndex]
  · exact le_max_left _ _

theorem appendEntries_lastApplied_le (r : RaftNode) (args : AppendEntriesArgs) :
    (r.appendEntries args).1.lastApplied ≤
      max r.lastApplied (r.appendEntries args).1.commitIndex := by
  by_cases hacc : r.Accepts args
  · rw [appendEntries_accept hacc]
    have hle := (r.observeTerm args.term).acceptEntries_lastApplied_le args
    rwa [lastApplied_of_views (r.views_observeTerm args.term)] at hle
  · rcases (appendEntries_refuse_node hacc).1 with hnode | hnode
    · rw [hnode]
      exact le_max_left _ _
    · rw [hnode, lastApplied_of_views (r.views_observeTerm args.term)]
      exact le_max_left _ _

theorem appendOwn_lastApplied (r : RaftNode) (e : LogEntry) :
    (r.appendOwn e).lastApplied = r.lastApplied := saveState_lastApplied _

theorem submitCommand_lastApplied_le (r : RaftNode) (topic : String) (partition : ℤ)
    (data : List UInt8) :
    (r.submitCommand topic partition data).1.lastApplied ≤
      max r.lastApplied (r.submitCommand topic partition data).1.commitIndex := by
  unfold submitCommand
  split
  · dsimp only
    split
    · refine (applyCommittedEntries_lastApplied_le _).trans ?_
      rw [applyCommittedEntries_commitIndex]
      dsimp only
      rw [appendOwn_lastApplied]
    · dsimp only
      rw [appendOwn_lastApplied]
      exact le_max_left _ _
  · exact le_max_left _ _

end RaftNode

/-- Nothing behind the commit index is applied. -/
theorem NodeOp.lastApplied_le (h : NodeOp p ev r) (hev : ev.plain = true) :
    r.lastApplied ≤ max p.node.lastApplied r.commitIndex := by
  have hviews : ∀ {r : RaftNode}, r.views = p.node.views →
      r.lastApplied ≤ max p.node.lastApplied r.commitIndex :=
    fun heq => (lastApplied_of_views heq).le.trans (le_max_left _ _)
  cases h with
  | same => exact hviews rfl
  | startElection _ _ id => exact hviews (p.node.views_startElection id)
  | requestVote _ _ args => exact hviews (p.node.views_requestVote args)
  | voteReply _ peer reply e => exact hviews (p.node.views_handleVoteReply e peer reply)
  | sendAppendEntries peer => exact hviews (p.node.views_normalizeNext peer)
  | appendEntries _ _ args => exact p.node.appendEntries_lastApplied_le args
  | appendReply _ reply c => exact hviews (p.node.views_handleAppendReply c reply)
  | installSnapshot => cases hev
  | snapshotReply _ reply c => exact hviews (p.node.views_handleSnapshotReply c reply)
  | submitCommand topic partition data =>
    exact p.node.submitCommand_lastApplied_le topic partition data
  | applyCommittedEntries =>
    have hle := p.node.applyCommittedEntries_lastApplied_le
    rwa [← p.node.applyCommittedEntries_commitIndex] at hle
  | checkISR => exact hviews p.node.views_checkISR
  | changeConfig addr add => exact (appendOwn_lastApplied _ _).le.trans (le_max_left _ _)
  | appendStableConfig =>
    refine le_trans (le_of_eq ?_) (le_max_left _ _)
    unfold RaftNode.appendStableConfig
    split
    · rfl
    · exact appendOwn_lastApplied _ _
  | restart _ hre => exact absurd hre (Event.not_restarts_of_plain hev)

namespace RaftNode

/-- The data entries sent continue `D` up to the last applied entry. -/
structure DeliveredFrom (D : List LogEntry) (r : RaftNode) : Prop where
  sent : ∃ sent, r.applyCh = some sent ∧ D ++ sent = dataEntries r.log.elems r.lastApplied
  bound : r.lastApplied < r.log.len

/-- Merging the request leaves the applied part of the log as it is. -/
def MergesBehind (r : RaftNode) (args : AppendEntriesArgs) : Prop :=
  r.log.elems.take (r.lastApplied + 1) <+:
    (r.log.splice LogEntry.term (args.prevLogIndex + 1) args.entries).elems

variable {D : List LogEntry} {r r' : RaftNode}

omit [GrowthPolicy] in
/-- A log that starts with the applied part of the old one shows the same entries. -/
theorem DeliveredFrom.of_prefix (h : DeliveredFrom D r) (hch : r'.applyCh = r.applyCh)
    (hlast : r'.lastApplied = r.lastApplied)
    (hlog : r.log.elems.take (r.lastApplied + 1) <+: r'.log.elems) : DeliveredFrom D r' := by
  have hlen : (r.log.elems.take (r.lastApplied + 1)).length = r.lastApplied + 1 :=
    List.length_take_of_le h.bound
  have htake : r'.log.elems.take (r.lastApplied + 1) = r.log.elems.take (r.lastApplied + 1) := by
    have heq := List.prefix_iff_eq_take.mp hlog
    rw [hlen] at heq
    exact heq.symm
  constructor
  · obtain ⟨sent, hsent, heq⟩ := h.sent
    refine ⟨sent, hch.trans hsent, ?_⟩
    rw [hlast, dataEntries_congr htake]
    exact heq
  · have hle := hlog.length_le
    rw [hlen] at hle
    rw [hlast]
    exact hle

theorem viewRule_deliveredFrom (D : List LogEntry) :
    ViewRule (DeliveredFrom D) (fun _ _ => True) MergesBehind where
  frame := by
    intro r r' hviews h
    refine h.of_prefix (applyCh_of_views hviews) (lastApplied_of_views hviews) ?_
    rw [log_of_views hviews]
    exact List.take_prefix _ _
  own := by
    intro r e h _ _
    refine h.of_prefix rfl rfl ?_
    rw [GoSlice.elems_append]
    exact (List.take_prefix _ _).trans (List.prefix_append _ _)
  change := by
    intro r e new h _ _
    refine h.of_prefix rfl rfl ?_
    show _ <+: (r.log.append e).elems
    rw [GoSlice.elems_append]
    exact (List.take_prefix _ _).trans (List.prefix_append _ _)
  merge := by
    intro r args h hkeeps
    exact h.of_prefix rfl rfl hkeeps
  apply := by
    intro r e h hentry _
    -- one more entry is applied, and sent if it has data
    obtain ⟨sent, hsent, heq⟩ := h.sent
    constructor
    · refine ⟨_, applyEntry_sent (by exact hsent), ?_⟩
      rw [applyEntry_log, applyEntry_lastApplied, ← List.append_assoc, heq]
      show _ = dataEntries r.log.elems (r.lastApplied + 1)
      rw [dataEntries_succ, hentry]
      rfl
    · rw [applyEntry_log, applyEntry_lastApplied]
      exact (List.getElem?_eq_some_iff.mp hentry).1

/-- What has been sent on `applyCh` is not taken back. -/
theorem viewRule_sent (sent : List LogEntry) :
    ViewRule (fun r => ∃ sent', r.applyCh = some sent' ∧ sent <+: sent') (fun _ _ => True)
      fun _ _ => True where
  frame := by
    intro r r' hviews h
    rwa [applyCh_of_views hviews]
  own := fun h _ _ => h
  change := fun h _ _ => h
  merge := fun h _ => h
  apply := by
    rintro r e ⟨sent', hsent, hpre⟩ - -
    exact ⟨_, applyEntry_sent (by exact hsent), hpre.trans (List.prefix_append _ _)⟩

end RaftNode

theorem Proc.sent_grows {p' : Proc} {sent : List LogEntry} (hst : p.next ev = some p')
    (hplain : ev.plain = true) (hsent : p.node.applyCh = some sent) :
    ∃ sent', p'.node.applyCh = some sent' ∧ sent <+: sent' := by
  rcases (viewRule_sent sent).next ⟨sent, hsent, List.prefix_rfl⟩ hst
    (Event.not_restarts_of_plain hplain) (by rintro c i args rfl; cases hplain)
    (fun _ _ _ _ _ => trivial) (fun r _ => appliesAll_true _ r) with h | ⟨-, r, h, -, hnode⟩
  · exact h
  · rw [hnode]
    exact h

end DistributedMQ.Raft
