import DistributedMQ.Raft.InstallSnapshot
import DistributedMQ.Raft.Lag
import DistributedMQ.Raft.MatchSound

/-!
# The leader's `nextIndex` and the end of its log (`raft.go` lines 275–290, 367–431 and 1133–1147)

`sendAppendEntries` slices the log at `nextIndex` and panics if that is behind its end. A new leader
starts with the end of its log, and its log only grows, unless it serves a request of its own term.
But what a reply records in `nextIndex` was taken from the log at the time of the request: the
goroutine asks whether the node leads when the reply is there, not whether it has led since the
request. `sendSnapshot` does not even ask that.

- `NextInLog r`: `nextIndex` of every peer is at most the length of the log.
- `NextFrame r r'`: an operation keeps that.
- `Proc.RecordsInLog`: a leader that records a reply has what the reply acknowledges, and a request
  of its own term that it accepts does not cut its log below a `nextIndex`. This is said of the
  message and of the state that it finds.
- `nextIndex_le_len`: in a run of such steps a leader has every `nextIndex` in its log, and
  `sendAppendEntries` does not panic. A reply keeps it so iff it meets the condition.
- `nextIndex_behind_log`: the reply to a request of an earlier leadership kills the process.
-/

namespace DistributedMQ.Raft

open Machine

namespace RaftNode

/-- `nextIndex` of every peer is at most the length of the log. -/
def NextInLog (r : RaftNode) : Prop := ∀ q ∈ r.peers.keys, r.nextIndex.get q 0 ≤ r.log.len

instance (r : RaftNode) : Decidable r.NextInLog :=
  inferInstanceAs (Decidable (∀ q ∈ r.peers.keys, _))

/-- The operation cuts nothing off the log and lets no `nextIndex` out of it. -/
structure NextFrame (r r' : RaftNode) : Prop where
  log_le : r.log.len ≤ r'.log.len
  inLog : 0 < r.log.len → r.NextInLog → r'.NextInLog

variable {r r' r'' : RaftNode}

theorem NextInLog.of_eq (h : r.NextInLog) (hpeers : r'.peers = r.peers)
    (hnext : r'.nextIndex = r.nextIndex) (hlog : r.log.len ≤ r'.log.len) : r'.NextInLog := by
  intro q hq
  rw [hnext]
  exact (h q (hpeers ▸ hq)).trans hlog

/-- One `nextIndex` is set. -/
theorem NextInLog.insert_iff (h : r.NextInLog) (peer : String) (n : ℕ) :
    NextInLog { r with nextIndex := r.nextIndex.insert peer n } ↔
      (peer ∈ r.peers.keys → n ≤ r.log.len) := by
  constructor
  · intro hin hmem
    have hle := hin peer hmem
    dsimp only at hle
    rwa [GoMap.get_insert_self] at hle
  · intro hin q hq
    dsimp only at hq ⊢
    by_cases hne : q = peer
    · subst hne
      rw [GoMap.get_insert_self]
      exact hin hq
    · rw [GoMap.get_insert_ne _ hne]
      exact h q hq

theorem NextFrame.of_eq (hpeers : r'.peers = r.peers) (hnext : r'.nextIndex = r.nextIndex)
    (hlog : r.log.len ≤ r'.log.len) : NextFrame r r' where
  log_le := hlog
  inLog _ h := h.of_eq hpeers hnext hlog

theorem NextFrame.refl (r : RaftNode) : NextFrame r r := .of_eq rfl rfl le_rfl

theorem NextFrame.trans (h : NextFrame r r') (h' : NextFrame r' r'') : NextFrame r r'' where
  log_le := h.log_le.trans h'.log_le
  inLog hpos hin := h'.inLog (hpos.trans_le h.log_le) (h.inLog hpos hin)

/-- A learner starts at the end of the log. -/
theorem nextFrame_addLearner (r : RaftNode) (addr : String) : NextFrame r (r.addLearner addr) := by
  unfold addLearner
  split
  · exact .refl r
  · refine ⟨le_rfl, fun _ hin q hq => ?_⟩
    dsimp only at hq ⊢
    by_cases hne : q = addr
    · rw [hne, GoMap.get_insert_self]
    · rw [← AList.mem_keys, AList.mem_insert] at hq
      rw [GoMap.get_insert_ne _ hne]
      exact hin q (AList.mem_keys.mp (hq.resolve_left hne))

theorem nextFrame_dropPeer (r : RaftNode) (addr : String) : NextFrame r (r.dropPeer addr) := by
  unfold dropPeer
  split
  · exact .refl r
  · refine ⟨le_rfl, fun _ hin q hq => ?_⟩
    dsimp only at hq ⊢
    rw [← AList.mem_keys, AList.mem_erase] at hq
    rw [GoMap.get, AList.lookup_erase_ne hq.1]
    exact hin q (AList.mem_keys.mp hq.2)

theorem peerRule_next : PeerRule NextFrame where
  frame hlog hpeers hnext _ := .of_eq hpeers hnext (hlog ▸ le_rfl)
  trans := .trans
  append _ _ := .of_eq rfl rfl (by simp [GoSlice.len])
  addLearner := nextFrame_addLearner
  dropPeer := nextFrame_dropPeer

/-- There is an entry at index 0, so that 1 is in the log. -/
theorem nextFrame_normalizeNext (r : RaftNode) (peer : String) :
    NextFrame r (r.normalizeNext peer) := by
  unfold normalizeNext
  split
  · exact ⟨le_rfl, fun hpos hin => (hin.insert_iff peer 1).mpr fun _ => hpos⟩
  · exact .refl r

theorem nextInLog_updateCommitIndex : r.updateCommitIndex.NextInLog ↔ r.NextInLog := by
  obtain ⟨n, pc, cc, h⟩ := commitLoop_shape r.log.len r
  unfold updateCommitIndex
  rw [h]
  exact Iff.rfl

/-! ## Leaders -/

/-- **In range.** A leader has every `nextIndex` in its log. -/
def LeadsInLog (r : RaftNode) : Prop := r.state = .leader → r.NextInLog

instance (r : RaftNode) : Decidable r.LeadsInLog := inferInstanceAs (Decidable (_ → _))

/-- The reply of a peer is recorded: it tells of a success and of no newer term, and the node
leads. -/
structure Records (r : RaftNode) (peer : String) (term : ℕ) (success : Bool) : Prop where
  state : r.state = .leader
  term_le : term ≤ r.currentTerm
  success : success = true
  peer_mem : peer ∈ r.peers.keys

theorem records_iff {peer : String} {term : ℕ} {success : Bool} :
    r.Records peer term success ↔
      r.state = .leader ∧ term ≤ r.currentTerm ∧ success = true ∧ peer ∈ r.peers.keys :=
  ⟨fun h => ⟨h.state, h.term_le, h.success, h.peer_mem⟩, fun h => ⟨h.1, h.2.1, h.2.2.1, h.2.2.2⟩⟩

instance (r : RaftNode) (peer : String) (term : ℕ) (success : Bool) :
    Decidable (r.Records peer term success) :=
  decidable_of_iff _ records_iff.symm

theorem leadsInLog_of_state (h : r.state ≠ .leader) : r.LeadsInLog := fun hlead => absurd hlead h

theorem LeadsInLog.frame (h : r.LeadsInLog) (hpos : 0 < r.log.len) (hframe : NextFrame r r')
    (hlead : r'.state = .leader → r.state = .leader) : r'.LeadsInLog :=
  fun hleads => hframe.inLog hpos (h (hlead hleads))

theorem becomeFollower_state (r : RaftNode) (term : ℕ) :
    (r.becomeFollower term).state ≠ .leader := by
  rw [becomeFollower, saveState_state]
  show NodeState.follower ≠ .leader
  decide

theorem becomeLeader_nextInLog (r : RaftNode) : r.becomeLeader.NextInLog := by
  intro q hq
  have hmem : q ∈ r.peers.keys := hq
  show GoMap.get (r.peers.keys.foldl (fun m p => m.insert p r.log.len) r.nextIndex) q 0 ≤ r.log.len
  rw [get_foldl_insert fun _ => r.log.len, if_pos hmem]

/-- Without peers there is no `nextIndex`. -/
theorem leadsInLog_startElection (r : RaftNode) (id : ℕ) : (r.startElection id).1.LeadsInLog := by
  rw [startElection]
  split
  · rename_i hpeers
    intro _ q hq
    rw [saveState_peers] at hq
    exact absurd (hpeers ▸ hq : q ∈ ([] : List String)) List.not_mem_nil
  · refine leadsInLog_of_state ?_
    rw [saveState_state]
    show NodeState.candidate ≠ .leader
    decide

theorem leadsInLog_handleVoteReply (h : r.LeadsInLog) (e : Election) (peer : String)
    (reply : RequestVoteReply) : (r.handleVoteReply e peer reply).1.LeadsInLog := by
  rw [handleVoteReply]
  dsimp only
  split
  · exact leadsInLog_of_state (r.becomeFollower_state reply.term)
  split
  · split
    · exact fun _ => r.becomeLeader_nextInLog
    · exact h
  · exact h

/-- **A reply to `AppendEntries`** that is recorded has to acknowledge an entry of the log. -/
theorem leadsInLog_handleAppendReply_iff (h : r.LeadsInLog) (c : AppendCall)
    (reply : AppendEntriesReply) :
    (r.handleAppendReply c reply).LeadsInLog ↔
      (r.Records c.peer reply.term reply.success →
        c.prevLogIndex + c.entries.len < r.log.len) := by
  rw [handleAppendReply]
  split
  · rename_i hterm
    exact iff_of_true (leadsInLog_of_state (r.becomeFollower_state reply.term))
      fun hrec => absurd hterm (not_lt.mpr hrec.term_le)
  rename_i hterm
  split
  · rename_i hstate
    exact iff_of_true h fun hrec => absurd hrec.state hstate
  rename_i hstate
  have hlead := not_not.mp hstate
  split
  · rename_i hsucc
    -- recorded: `nextIndex` is now behind the acknowledged entry
    have hset := (h hlead).insert_iff c.peer (c.prevLogIndex + c.entries.len + 1)
    constructor
    · intro hin hrec
      have hnow := nextInLog_updateCommitIndex.mp (hin ((updateCommitIndex_state _).trans hlead))
      exact hset.mp hnow hrec.peer_mem
    · intro hrec _
      refine nextInLog_updateCommitIndex.mpr ?_
      exact hset.mpr fun hmem => hrec ⟨hlead, not_lt.mp hterm, hsucc, hmem⟩
  · rename_i hsucc
    refine iff_of_true ?_ fun hrec => absurd hrec.success hsucc
    -- a refusal only moves `nextIndex` back
    split
    · refine fun _ => ((h hlead).insert_iff c.peer _).mpr fun hmem => ?_
      exact (Nat.sub_le _ 1).trans (h hlead c.peer hmem)
    · exact h

/-- **A reply to `InstallSnapshot`**, likewise. -/
theorem leadsInLog_handleSnapshotReply_iff (h : r.LeadsInLog) (c : SnapshotCall)
    (reply : InstallSnapshotReply) :
    (r.handleSnapshotReply c reply).LeadsInLog ↔
      (r.Records c.peer reply.term reply.success → c.lastIndex < r.log.len) := by
  rw [handleSnapshotReply]
  split
  · rename_i hterm
    exact iff_of_true (leadsInLog_of_state (r.becomeFollower_state reply.term))
      fun hrec => absurd hterm (not_lt.mpr hrec.term_le)
  rename_i hterm
  split
  · rename_i hsucc
    constructor
    · intro hin hrec
      exact ((h hrec.state).insert_iff c.peer (c.lastIndex + 1)).mp (hin hrec.state) hrec.peer_mem
    · intro hrec hlead
      refine ((h hlead).insert_iff c.peer (c.lastIndex + 1)).mpr fun hmem => hrec ?_
      exact ⟨hlead, not_lt.mp hterm, hsucc, hmem⟩
  · rename_i hsucc
    exact iff_of_true h fun hrec => absurd hrec.success hsucc

theorem sendOutcome_ne_panic {q : String} (hpos : 0 < r.log.len)
    (hle : r.nextIndex.get q 0 ≤ r.log.len) (id : ℕ) : r.sendOutcome q id ≠ .panic := by
  have hnext : r.nextIdx q ≤ r.log.len := by
    rw [nextIdx]
    split
    · exact hpos
    · exact hle
  rw [sendOutcome, if_neg (not_lt.mpr hnext)]
  split
  · simp
  · simp

/-! ## Requests that a leader serves -/

theorem observeTerm_currentTerm_self (r : RaftNode) : r.observeTerm r.currentTerm = r :=
  if_neg (lt_irrefl _)

/-- A node that still leads is still in its term. -/
theorem Calm.lead_term (h : Calm r r') (hlead : r'.state = .leader) :
    r'.currentTerm = r.currentTerm := by
  cases h.move with
  | stay _ hterm => exact hterm
  | down hstate =>
    rw [hstate] at hlead
    cases hlead

/-- A log of `len` entries reaches every `nextIndex`. -/
def ReachedBy (r : RaftNode) (len : ℕ) : Prop := ∀ q ∈ r.peers.keys, r.nextIndex.get q 0 ≤ len

instance (r : RaftNode) (len : ℕ) : Decidable (r.ReachedBy len) :=
  inferInstanceAs (Decidable (∀ q ∈ r.peers.keys, _))

/-- What is left of the log when the entries of the request have been merged into it. -/
def mergedLen (r : RaftNode) (args : AppendEntriesArgs) : ℕ :=
  (TermLog.splice LogEntry.term r.log.elems (args.prevLogIndex + 1) args.entries).length

/-- The sentinel and the entries of the snapshot. -/
def installedLen (args : InstallSnapshotArgs) : ℕ := 1 + args.data.values.length

variable [GrowthPolicy]

/-- A leader that accepts a request of its own term stays the leader, with the log that the request
leaves it. -/
theorem leadsInLog_appendEntries {args : AppendEntriesArgs} (h : r.LeadsInLog)
    (hpos : 0 < r.log.len)
    (hcut : r.state = .leader → args.term = r.currentTerm → r.Accepts args →
      r.ReachedBy (r.mergedLen args)) :
    (r.appendEntries args).1.LeadsInLog := by
  have hcalm := r.calm_appendEntries args
  by_cases hacc : r.Accepts args
  · intro hlead
    have hterm := (appendEntries_term hacc.1).2.symm.trans (hcalm.lead_term hlead)
    have hkept := hcut (hcalm.lead hlead) hterm hacc
    rw [appendEntries_accept hacc, hterm, observeTerm_currentTerm_self]
    refine (peerRule_next.acceptEntries r args).inLog ?_ fun q hq => ?_
    · show 0 < (r.log.splice _ _ _).elems.length
      rw [GoSlice.elems_splice]
      exact TermLog.splice_length_pos _ _ _ hpos
    · show _ ≤ (r.log.splice _ _ _).elems.length
      rw [GoSlice.elems_splice]
      exact hkept q hq
  · rcases (appendEntries_refuse_node hacc).1 with hnode | hnode
    · rw [hnode]
      exact h
    · rw [hnode]
      exact h.frame hpos (peerRule_next.observeTerm r args.term) (r.calm_observeTerm args.term).lead

theorem installSnapshot_currentTerm {args : InstallSnapshotArgs} (h : r.Installs args) :
    (r.installSnapshot args).1.currentTerm = args.term := by
  rw [installSnapshot_accept h, acceptSnapshot, saveState_currentTerm]
  exact observeTerm_currentTerm h.1

theorem leadsInLog_installSnapshot {args : InstallSnapshotArgs} (h : r.LeadsInLog)
    (hpos : 0 < r.log.len)
    (hcut : r.state = .leader → args.term = r.currentTerm → r.Installs args →
      r.ReachedBy (installedLen args)) :
    (r.installSnapshot args).1.LeadsInLog := by
  have hcalm := r.calm_installSnapshot args
  by_cases hinstall : r.Installs args
  · intro hlead
    have hterm := (installSnapshot_currentTerm hinstall).symm.trans (hcalm.lead_term hlead)
    have hkept := hcut (hcalm.lead hlead) hterm hinstall
    have hlen : (r.installSnapshot args).1.log.len = installedLen args := by
      rw [GoSlice.len, installSnapshot_log hinstall, List.length_append, List.length_take]
      exact congrArg (· + _) (min_eq_left hpos)
    intro q hq
    rw [hlen]
    rw [installSnapshot_accept hinstall, hterm, observeTerm_currentTerm_self, acceptSnapshot] at hq ⊢
    rw [saveState_peers] at hq
    rw [saveState_nextIndex]
    exact hkept q hq
  · rcases installSnapshot_refuse hinstall with hnode | hnode
    · rw [hnode]
      exact h
    · rw [hnode]
      exact h.frame hpos (peerRule_next.observeTerm r args.term) (r.calm_observeTerm args.term).lead

end RaftNode

open RaftNode

/-! ## Runs -/

namespace Proc

/-- **The condition.** A reply that a leader records acknowledges an entry of its log, and a request
of its own term that it accepts leaves it a log that is long enough. -/
def RecordsInLog (p : Proc) (ev : Event) (_ : Proc) : Prop :=
  match ev with
  | .appendReply id reply =>
    ∀ c ∈ p.appends.find? fun c => c.id = id, p.node.Records c.peer reply.term reply.success →
      c.prevLogIndex + c.entries.len < p.node.log.len
  | .snapshotReply id reply =>
    ∀ c ∈ p.snapshots.find? fun c => c.id = id, p.node.Records c.peer reply.term reply.success →
      c.lastIndex < p.node.log.len
  -- a leader only steps down for a greater term
  | .appendEntries _ _ args =>
    p.node.state = .leader → args.term = p.node.currentTerm → p.node.Accepts args →
      p.node.ReachedBy (p.node.mergedLen args)
  | .installSnapshot _ _ args =>
    p.node.state = .leader → args.term = p.node.currentTerm → p.node.Installs args →
      p.node.ReachedBy (installedLen args)
  | _ => True

instance (p : Proc) (ev : Event) (p' : Proc) : Decidable (p.RecordsInLog ev p') := by
  apply Event.casesOn (motive := fun ev => Decidable (p.RecordsInLog ev p')) ev <;> intros <;>
    unfold RecordsInLog <;> infer_instance

end Proc

section runs

variable [GrowthPolicy] {p p' : Proc} {ev : Event}

theorem viewRule_log_pos :
    ViewRule (fun r => 0 < r.log.len) (fun _ _ => True) fun _ _ => True where
  frame := by
    intro r r' hviews h
    rw [log_of_views hviews]
    exact h
  own := by
    intro r e h _ _
    simp [GoSlice.len]
  change := by
    intro r e new h _ _
    simp [GoSlice.len]
  merge := by
    intro r args h _
    show 0 < (r.log.splice _ _ _).elems.length
    rw [GoSlice.elems_splice]
    exact TermLog.splice_length_pos _ _ _ h
  apply := by
    intro r e h _ _
    rw [applyEntry_log]
    exact h

theorem newRaftNode_log_pos (self : String) (peers : List String) (dir : String) (disk : Disk) :
    0 < (newRaftNode self peers dir disk).log.len := by
  obtain ⟨es, hes⟩ := newRaftNode_log self peers dir disk
  rw [GoSlice.len, hes]
  exact Nat.succ_pos _

/-- The log is never empty. -/
theorem Proc.next_log_pos (h : 0 < p.node.log.len) (hst : p.next ev = some p') :
    0 < p'.node.log.len := by
  by_cases hev : ev.Restarts
  · obtain ⟨r, -, rfl⟩ := Proc.next_restarts hst hev
    exact newRaftNode_log_pos _ _ _ _
  · have hsnap : ∀ args, 0 < (p.node.installSnapshot args).1.log.len := by
      intro args
      by_cases hinstall : p.node.Installs args
      · rw [GoSlice.len, installSnapshot_log hinstall, List.length_append, List.length_take]
        exact Nat.lt_of_lt_of_le (lt_min Nat.one_pos h) (Nat.le_add_right _ _)
      · rw [installSnapshot_log_refuse hinstall]
        exact h
    rcases viewRule_log_pos.next_snapshot h hst hev hsnap (fun _ _ _ _ _ => trivial)
      (fun r _ => appliesAll_true _ r) with hpos | ⟨-, r, hpos, -, hnode⟩
    · exact hpos
    · rw [hnode]
      exact hpos

/-- What holds in every state of a run. -/
structure RangeInv (p : Proc) : Prop where
  log_pos : 0 < p.node.log.len
  inLog : p.node.LeadsInLog

theorem rangeInv_boot (self : String) (peers : List String) (dir : String) (disk : Disk) :
    RangeInv (Proc.boot self peers dir disk) where
  log_pos := newRaftNode_log_pos self peers dir disk
  inLog := leadsInLog_of_state (by rw [Proc.boot, newRaftNode_state]; decide)

namespace RangeInv

/-- A step that handles a reply keeps every `nextIndex` in the log iff it meets the condition. -/
theorem appendReply_iff (h : RangeInv p) {id : ℕ} {reply : AppendEntriesReply}
    (hst : p.next (.appendReply id reply) = some p') :
    p'.node.LeadsInLog ↔ p.RecordsInLog (.appendReply id reply) p' := by
  obtain ⟨out, hcase⟩ := Proc.next_cases hst
  cases hcase with
  | appendReply _ _ c hfind =>
    rw [Proc.RecordsInLog, hfind]
    dsimp only
    rw [leadsInLog_handleAppendReply_iff h.inLog]
    simp

theorem snapshotReply_iff (h : RangeInv p) {id : ℕ} {reply : InstallSnapshotReply}
    (hst : p.next (.snapshotReply id reply) = some p') :
    p'.node.LeadsInLog ↔ p.RecordsInLog (.snapshotReply id reply) p' := by
  obtain ⟨out, hcase⟩ := Proc.next_cases hst
  cases hcase with
  | snapshotReply _ _ c hfind =>
    rw [Proc.RecordsInLog, hfind]
    dsimp only
    rw [leadsInLog_handleSnapshotReply_iff h.inLog]
    simp

/-- A step that meets the condition leaves every `nextIndex` of a leader in its log. -/
theorem step (h : RangeInv p) (hg : p.RecordsInLog ev p') (hst : p.next ev = some p') :
    RangeInv p' := by
  refine ⟨Proc.next_log_pos h.log_pos hst, ?_⟩
  have hframe : ∀ {r : RaftNode}, NextFrame p.node r → Calm p.node r → r.LeadsInLog :=
    fun hnext hcalm => h.inLog.frame h.log_pos hnext hcalm.lead
  generalize hr : p'.node = r
  have hop : NodeOp p ev r := hr ▸ Proc.next_nodeOp hst
  cases hop with
  | same _ => exact h.inLog
  | startElection _ _ id => exact leadsInLog_startElection p.node id
  | requestVote caller id args =>
    exact h.inLog.frame h.log_pos (peerRule_next.requestVote p.node args) requestVote_lead
  | voteReply id peer reply e _ => exact leadsInLog_handleVoteReply h.inLog e peer reply
  | sendAppendEntries peer hlead =>
    exact h.inLog.frame h.log_pos (p.node.nextFrame_normalizeNext peer) fun _ => hlead
  | appendEntries caller id args => exact leadsInLog_appendEntries h.inLog h.log_pos hg
  | appendReply id reply c _ _ => exact hr ▸ (h.appendReply_iff hst).mpr hg
  | installSnapshot caller id args => exact leadsInLog_installSnapshot h.inLog h.log_pos hg
  | snapshotReply id reply c _ => exact hr ▸ (h.snapshotReply_iff hst).mpr hg
  | submitCommand topic partition data =>
    exact hframe (peerRule_next.submitCommand _ _ _ _) (calm_submitCommand _ _ _ _)
  | applyCommittedEntries => exact hframe (peerRule_next.applyLoop _ _) (calm_applyLoop _ _)
  | checkISR => exact hframe (peerRule_next.checkISR _) (calm_checkISR _)
  | changeConfig addr add =>
    exact hframe (peerRule_next.changeConfig _ _ _) (calm_changeConfig _ _ _)
  | appendStableConfig =>
    exact hframe (peerRule_next.appendStableConfig _) (calm_appendStableConfig _)
  | restart _ _ r _ =>
    refine leadsInLog_of_state ?_
    rw [newRaftNode_state]
    decide

/-- The slice that `sendAppendEntries` takes is in range. -/
theorem sendAppendEntries_alive (h : RangeInv p) {q : String}
    (hst : p.next (.sendAppendEntries q) = some p') : p'.alive = true := by
  have halive := Proc.alive_of_next hst fun hre => hre
  obtain ⟨out, hcase⟩ := Proc.next_cases hst
  cases hcase with
  | sendAppendEntries _ hpeer =>
    rw [Proc.onSendAppendEntries, sendAppendEntries]
    by_cases hlead : p.node.state = .leader
    · rw [if_pos hlead]
      cases hout : p.node.sendOutcome q p.nextId with
      | idle => exact halive
      | snapshot => exact halive
      | request c => exact halive
      | panic => exact absurd hout (sendOutcome_ne_panic h.log_pos (h.inLog hlead q hpeer) _)
    · rw [if_neg hlead]
      exact halive

end RangeInv

/-- **The leader never slices past its log**, in every run of a process whose steps meet the
condition: it has every `nextIndex` in its log, and no `sendAppendEntries` panics. A step of such
a run that handles a reply keeps this iff it meets the condition. -/
theorem nextIndex_le_len {self : String} {peers : List String} {dir : String} {disk : Disk}
    (hrun : Run Proc.next Proc.RecordsInLog (Proc.boot self peers dir disk) p) :
    (p.node.state = .leader → ∀ q ∈ p.node.peers.keys,
        p.node.nextIndex.get q 0 ≤ p.node.log.len) ∧
      (∀ q p', p.next (.sendAppendEntries q) = some p' → p'.alive = true) ∧
      (∀ id reply p', p.next (.appendReply id reply) = some p' →
        (p'.node.LeadsInLog ↔ p.RecordsInLog (.appendReply id reply) p')) ∧
      ∀ id reply p', p.next (.snapshotReply id reply) = some p' →
        (p'.node.LeadsInLog ↔ p.RecordsInLog (.snapshotReply id reply) p') := by
  have hinv : RangeInv p := by
    refine hrun.invariant (P := RangeInv) (rangeInv_boot self peers dir disk) ?_
    exact fun _ _ _ h hg hst => h.step hg hst
  exact ⟨hinv.inLog, fun q p' => hinv.sendAppendEntries_alive,
    fun id reply p' => hinv.appendReply_iff, fun id reply p' => hinv.snapshotReply_iff⟩

end runs

section traces

open scoped GrowthPolicy

/-- `a` leads `b` and `c` in term 2; when `b` has acknowledged its command, `nextIndex` of `b` is
the end of the log. -/
theorem nextIndex_le_len_command :
    ∃ p : Proc, p.node.state = .leader ∧ p.node.nextIndex.get "b" 0 = 1001 ∧
      p.node.nextIndex.get "b" 0 ≤ p.node.log.len := by
  obtain ⟨p, hrun, hlead, hpeer, hnext⟩ :
      ∃ p, Run Proc.next Proc.RecordsInLog (Proc.boot "a" ["b", "c"] "data" (threeDisks "a")) p ∧
        p.node.state = .leader ∧ "b" ∈ p.node.peers.keys ∧ p.node.nextIndex.get "b" 0 = 1001 :=
    exists_run_of_execWith
      [Event.electionTimeout, .voteReply 0 "b" { term := 2, voteGranted := true },
        .submitCommand "t" 0 [1], .sendAppendEntries "b", .marshal 1,
        .appendReply 1 { term := 2, success := true }] (by decide +kernel)
  exact ⟨p, hlead, hnext, (nextIndex_le_len hrun).1 hlead "b" hpeer⟩

/-- The second command of `a`. -/
def secondEntry : LogEntry := { term := 2, index := 1001, topic := "t", data := [2] }

/-- `a` is elected by `b` in term 2, takes two commands and brings them to `c`, whose answer is
late. -/
def replicateBothToC : List (String × Event) :=
  [("a", .electionTimeout),
    ("b", .requestVote "a" 0 (voteArgs "a" 2)),
    ("a", .voteReply 0 "b" { term := 2, voteGranted := true }),
    ("a", .submitCommand "t" 0 [1]),
    ("a", .submitCommand "t" 0 [2]),
    ("a", .sendAppendEntries "c"),
    ("a", .marshal 1),
    ("c", .appendEntries "a" 1
      { appendArgs "a" 2 [committedEntry, secondEntry] with leaderCommit := 999 })]

/-- `a` is elected again, by `c` in term 4, and gets the late answer. -/
def lateAnswerAtA : List (String × Event) :=
  [("a", .electionTimeout),
    ("c", .requestVote "a" 2 (longVoteArgs "a" 4)),
    ("a", .voteReply 2 "c" { term := 4, voteGranted := true }),
    ("a", .appendReply 1 { term := 2, success := true, lastLogIndex := 1001 })]

/-- **A leader that slices past its log.** The log of `a` ends at index 1000, the answer to its
request of term 2 sets `nextIndex` of `c` to 1002, and the next `sendAppendEntries` takes the
process down. -/
theorem nextIndex_behind_log :
    ∃ s s', Run Cluster.step Cluster.Careful
        (Cluster.boot ["a", "b", "c"] (fun _ => "data") threeDisks) s ∧
      s.step ("a", .sendAppendEntries "c") = some s' ∧
      (s.node "a").state = .leader ∧ "c" ∈ (s.node "a").peers.keys ∧
      (s.node "a").nextIndex.get "c" 0 = 1002 ∧ (s.node "a").log.len = 1001 ∧
      (s.procs "a").alive = true ∧ (s'.procs "a").alive = false :=
  exists_last_step_of_execWith (replicateBothToC ++ truncateAtA 1001 ++ lateAnswerAtA)
    ("a", .sendAppendEntries "c") (by decide +kernel)

end traces

end DistributedMQ.Raft
