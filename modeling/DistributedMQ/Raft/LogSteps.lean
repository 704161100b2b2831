import DistributedMQ.Raft.ElectionSafety

/-!
# What a step can do to terms and logs

- `TermMove r r'`: how state and term of a node move in a step that is not a
  restart (`ElectionEffect.termMove`).
- `RaftNode.accepts`: the checks an `AppendEntries` request has to pass, and
  `appendEntries_spec`, what the handler does with it.
- `LogEffect`: what a step does to the log of its process, to its outstanding
  calls, and what it says on the wire about either.
-/

namespace DistributedMQ.Raft

open RaftNode

/-! ## Terms -/

/-- How state and term can move. -/
inductive TermMove (r r' : RaftNode) : Prop where
  | stay (hstate : r'.state = r.state) (hterm : r'.currentTerm = r.currentTerm)
  | down (hstate : r'.state = .follower) (hterm : r.currentTerm < r'.currentTerm)
  | campaign (hwas : r.state ≠ .leader) (hterm : r'.currentTerm = r.currentTerm + 1)
  | elected (hwas : r.state = .candidate) (hstate : r'.state = .leader)
      (hterm : r'.currentTerm = r.currentTerm)

theorem RaftNode.VoteMove.termMove {r r' : RaftNode} (h : VoteMove r r') : TermMove r r' := by
  cases h with
  | stay hstate hterm => exact .stay hstate hterm
  | down hstate hterm => exact .down hstate hterm

theorem TermMove.term_le {r r' : RaftNode} (h : TermMove r r') :
    r.currentTerm ≤ r'.currentTerm := by
  cases h with
  | stay _ hterm => exact le_of_eq hterm.symm
  | down _ hterm => exact le_of_lt hterm
  | campaign _ hterm => exact hterm ▸ Nat.le_succ _
  | elected _ _ hterm => exact le_of_eq hterm.symm

/-- Leadership does not end within its term. -/
theorem TermMove.lead_stays {r r' : RaftNode} (h : TermMove r r')
    (hterm : r'.currentTerm = r.currentTerm) (hlead : r.state = .leader) :
    r'.state = .leader := by
  cases h with
  | stay hstate => exact hstate.trans hlead
  | down _ hlt => omega
  | campaign _ hinc => omega
  | elected _ hstate => exact hstate

/-- A node that leads before and after has stayed in its term. -/
theorem TermMove.lead_term {r r' : RaftNode} (h : TermMove r r') (hlead : r.state = .leader)
    (hlead' : r'.state = .leader) : r'.currentTerm = r.currentTerm := by
  cases h with
  | stay _ hterm => exact hterm
  | down hstate => exact absurd (hstate.symm.trans hlead') (by decide)
  | campaign hwas => exact absurd hlead hwas
  | elected hwas => exact absurd (hwas.symm.trans hlead) (by decide)

variable [GrowthPolicy]

theorem ElectionEffect.termMove {p p' : Proc} {ev : Event} {out : List Message}
    (h : ElectionEffect p ev p' out) (hev : ¬ ev.Restarts)
    (hwrap : ev.campaigns p = true → p.node.currentTerm + 1 < size64) : TermMove p.node p'.node := by
  cases h with
  | calm hnode => exact hnode.move.termMove
  | campaign es _ hlead hcamp =>
    obtain ⟨hnode, -⟩ := @Proc.startElection_spec { p with elections := es }
      (Proc.startElection _).1 (Proc.startElection _).2 rfl
    refine .campaign hlead ?_
    rw [hnode, ← inc64_of_lt (hwrap hcamp)]
    exact (p.node.startElection_spec p.nextId).1
  | ballot caller id args =>
    rcases p.node.requestVote_cases args with ⟨-, hcalm⟩ | ⟨-, hg⟩
    · exact hcalm.move.termMove
    · rcases hg.state with ⟨hstate, hterm⟩ | ⟨hstate, hlt⟩
      · exact .stay hstate (hg.term.trans hterm.symm)
      · exact .down hstate (hg.term.symm ▸ hlt)
  | tally e peer reply =>
    show TermMove p.node (p.node.handleVoteReply e peer reply).1
    rcases p.node.handleVoteReply_cases e peer reply with ⟨hcalm, -⟩ | ⟨hc, -, hr | ⟨hr, -⟩⟩
    · exact hcalm.move.termMove
    · rw [hr]
      exact .stay rfl rfl
    · rw [hr]
      exact .elected hc.state rfl rfl
  | reboot r hnode hre => exact absurd hre hev

/-! ## `AppendEntries` -/

namespace RaftNode

/-- The request passes the checks of `AppendEntries`. -/
def Accepts (r : RaftNode) (args : AppendEntriesArgs) : Prop :=
  r.currentTerm ≤ args.term ∧ args.prevLogIndex < r.log.len ∧
    (args.prevLogIndex = 0 ∨ r.termAt args.prevLogIndex = args.prevLogTerm)

instance (r : RaftNode) (args : AppendEntriesArgs) : Decidable (r.Accepts args) :=
  inferInstanceAs (Decidable (_ ∧ _ ∧ (_ ∨ _)))

omit [GrowthPolicy] in
theorem observeTerm_log (r : RaftNode) (term : ℕ) : (r.observeTerm term).log = r.log := by
  unfold observeTerm
  split
  · simp [becomeFollower, closePending]
  · rfl

omit [GrowthPolicy] in
theorem observeTerm_currentTerm {r : RaftNode} {term : ℕ} (h : r.currentTerm ≤ term) :
    (r.observeTerm term).currentTerm = term := by
  unfold observeTerm
  split
  · simp [becomeFollower, closePending]
  · exact le_antisymm h (not_lt.mp ‹_›)

theorem acceptEntries_log (r : RaftNode) (args : AppendEntriesArgs) :
    (r.acceptEntries args).log
      = r.log.splice LogEntry.term (args.prevLogIndex + 1) args.entries := by
  obtain ⟨ci, la, ch, ps, isr, ni, mi, cc, nc, cs, h⟩ := acceptEntries_shape r args
  rw [h, saveState_log]

theorem acceptEntries_currentTerm (r : RaftNode) (args : AppendEntriesArgs) :
    (r.acceptEntries args).currentTerm = r.currentTerm := by
  obtain ⟨ci, la, ch, ps, isr, ni, mi, cc, nc, cs, h⟩ := acceptEntries_shape r args
  rw [h, saveState_currentTerm]

theorem acceptEntries_state (r : RaftNode) (args : AppendEntriesArgs) :
    (r.acceptEntries args).state = r.state := by
  obtain ⟨ci, la, ch, ps, isr, ni, mi, cc, nc, cs, h⟩ := acceptEntries_shape r args
  rw [h, saveState_state]

/-- An accepted request is merged into the log in the request's term. -/
theorem appendEntries_accept {r : RaftNode} {args : AppendEntriesArgs} (h : r.Accepts args) :
    r.appendEntries args = ((r.observeTerm args.term).acceptEntries args,
      { term := args.term, success := true,
        lastLogIndex := ((r.observeTerm args.term).acceptEntries args).lastIndex }) := by
  obtain ⟨hterm, hprev, hmatch⟩ := h
  have hlog : (r.observeTerm args.term).log = r.log := r.observeTerm_log args.term
  have hcheck : ¬ (args.prevLogIndex > 0 ∧
      (r.observeTerm args.term).termAt args.prevLogIndex ≠ args.prevLogTerm) := by
    rintro ⟨hpos, hne⟩
    rcases hmatch with hzero | heq
    · omega
    · exact hne (by unfold termAt at heq ⊢; rwa [hlog])
  unfold appendEntries
  rw [if_neg (not_lt.mpr hterm)]
  dsimp only
  rw [if_neg (by rw [hlog]; exact not_le.mpr hprev), if_neg hcheck, acceptEntries_currentTerm,
    observeTerm_currentTerm hterm]

/-- A refused request leaves at most a newer term behind. -/
theorem appendEntries_refuse_node {r : RaftNode} {args : AppendEntriesArgs}
    (h : ¬ r.Accepts args) :
    ((r.appendEntries args).1 = r ∨ (r.appendEntries args).1 = r.observeTerm args.term) ∧
      (r.appendEntries args).2.success = false := by
  have hlog : (r.observeTerm args.term).log = r.log := r.observeTerm_log args.term
  unfold appendEntries
  dsimp only
  split
  · exact ⟨Or.inl rfl, rfl⟩
  split
  · exact ⟨Or.inr rfl, rfl⟩
  split
  · exact ⟨Or.inr rfl, rfl⟩
  · rename_i hterm hprev hcheck
    refine absurd ⟨not_lt.mp hterm, ?_, ?_⟩ h
    · rw [hlog] at hprev
      exact not_le.mp hprev
    · by_contra hno
      push Not at hno
      refine hcheck ⟨Nat.pos_of_ne_zero hno.1, ?_⟩
      unfold termAt at hno ⊢
      rw [hlog]
      exact hno.2

theorem appendEntries_refuse {r : RaftNode} {args : AppendEntriesArgs} (h : ¬ r.Accepts args) :
    (r.appendEntries args).1.log = r.log ∧ (r.appendEntries args).2.success = false := by
  obtain ⟨hnode, hreply⟩ := appendEntries_refuse_node h
  refine ⟨?_, hreply⟩
  rcases hnode with hnode | hnode
  · rw [hnode]
  · rw [hnode]
    exact r.observeTerm_log args.term

/-! ## Operations that leave the log alone -/

section log

omit [GrowthPolicy]

theorem becomeFollower_log (r : RaftNode) (term : ℕ) : (r.becomeFollower term).log = r.log := by
  simp [becomeFollower, closePending]

theorem startElection_log (r : RaftNode) (id : ℕ) : (r.startElection id).1.log = r.log := by
  unfold startElection
  split <;> simp [becomeLeader, closePending, campaign]

theorem requestVote_log (r : RaftNode) (args : RequestVoteArgs) :
    (r.requestVote args).1.log = r.log := by
  unfold requestVote
  dsimp only
  split
  · rfl
  split
  · rw [saveState_log]
    exact r.observeTerm_log args.term
  · exact r.observeTerm_log args.term

theorem handleVoteReply_log (r : RaftNode) (e : Election) (peer : String)
    (reply : RequestVoteReply) : (r.handleVoteReply e peer reply).1.log = r.log := by
  unfold handleVoteReply
  dsimp only
  split
  · exact r.becomeFollower_log reply.term
  split
  · split
    · rfl
    · rfl
  · rfl

theorem updateCommitIndex_log (r : RaftNode) : r.updateCommitIndex.log = r.log := by
  obtain ⟨n, pc, cc, h⟩ := commitLoop_shape r.log.len r
  unfold updateCommitIndex
  rw [h]

theorem handleAppendReply_log (r : RaftNode) (c : AppendCall) (reply : AppendEntriesReply) :
    (r.handleAppendReply c reply).log = r.log := by
  unfold handleAppendReply
  split
  · exact r.becomeFollower_log reply.term
  split
  · rfl
  split
  · rw [updateCommitIndex_log]
  split
  · rfl
  · rfl

theorem handleSnapshotReply_log (r : RaftNode) (c : SnapshotCall)
    (reply : InstallSnapshotReply) : (r.handleSnapshotReply c reply).log = r.log := by
  unfold handleSnapshotReply
  split
  · exact r.becomeFollower_log reply.term
  split
  · rfl
  · rfl

theorem applyLoop_log (k : ℕ) (r : RaftNode) : (applyLoop k r).1.log = r.log := by
  obtain ⟨la, ch, ps, isr, ni, mi, cc, nc, cs, h⟩ := applyLoop_shape k r
  rw [h]

theorem checkISR_log (r : RaftNode) : r.checkISR.log = r.log := by
  unfold checkISR
  split
  · rfl
  · rfl

theorem normalizeNext_log (r : RaftNode) (peer : String) : (r.normalizeNext peer).log = r.log := by
  unfold normalizeNext
  split
  · rfl
  · rfl

end log

/-- A leader's command goes to the end of its log. -/
theorem submitCommand_leader {r : RaftNode} (h : r.state = .leader) (topic : String)
    (partition : ℤ) (data : List UInt8) :
    (r.submitCommand topic partition data).1.log
        = r.log.append (r.commandEntry topic partition data) ∧
      (r.submitCommand topic partition data).1.state = .leader ∧
      (r.submitCommand topic partition data).1.currentTerm = r.currentTerm := by
  unfold submitCommand
  rw [if_pos h]
  dsimp only
  split
  · -- without peers the entry is committed and applied on the spot
    obtain ⟨la, ch, ps, isr, ni, mi, cc, nc, cs, hshape⟩ := applyLoop_shape
      (r.log.len - (r.appendOwn (r.commandEntry topic partition data)).lastApplied)
      { r.appendOwn (r.commandEntry topic partition data) with commitIndex := r.log.len }
    unfold applyCommittedEntries
    dsimp only
    rw [hshape]
    exact ⟨by simp [appendOwn], by simp [appendOwn, h], by simp [appendOwn]⟩
  · exact ⟨by simp [appendOwn], by simp [appendOwn, h], by simp [appendOwn]⟩

theorem appendStableConfig_stable {r : RaftNode} (h : r.configState = .stable) :
    r.appendStableConfig = r := by
  unfold appendStableConfig
  rw [if_pos (Or.inr (by rw [h]; decide))]

end RaftNode

/-! ## What a step can do to a log -/

/-- The message says nothing about logs. -/
def Message.Mute : Message → Prop
  | .appendRequest _ _ _ _ => False
  | .appendReply _ _ reply => reply.success = false
  | _ => True

/-- What a step can be for the log of its process. -/
inductive LogEffect (p : Proc) (ev : Event) : Proc → List Message → Prop where
  /-- The log stays, and calls can only be given up. -/
  | quiet {p' : Proc} {out : List Message} (hlog : p'.node.log = p.node.log)
      (happ : p'.appends ⊆ p.appends) (hid : p.nextId ≤ p'.nextId)
      (hout : ∀ m ∈ out, m.Mute) : LogEffect p ev p' out
  /-- A leader appends an entry of its term. -/
  | append {p' : Proc} (entry : LogEntry) (hlead : p.node.state = .leader)
      (hentry : entry.term = p.node.currentTerm)
      (hlog : p'.node.log = p.node.log.append entry) (hstate : p'.node.state = .leader)
      (hterm : p'.node.currentTerm = p.node.currentTerm) (happ : p'.appends = p.appends)
      (hid : p'.nextId = p.nextId) : LogEffect p ev p' []
  /-- A leader builds a request. -/
  | send {p' : Proc} (peer : String) (c : AppendCall) (hpeer : peer ∈ p.node.peers.keys)
      (hlead : p.node.state = .leader) (hc : p.node.sendOutcome peer p.nextId = .request c)
      (hlog : p'.node.log = p.node.log) (hstate : p'.node.state = .leader)
      (hterm : p'.node.currentTerm = p.node.currentTerm) (happ : p'.appends = p.appends ++ [c])
      (hid : p'.nextId = p.nextId + 1) : LogEffect p ev p' []
  /-- A request is marshalled. -/
  | marshal (c : AppendCall) (hc : c ∈ p.appends) (hsent : c.sent = false) :
      LogEffect p ev { p with appends := Proc.markSent p.appends c.id }
        [.appendRequest p.node.selfAddr c.id c.peer (p.node.marshal c)]
  /-- A request is accepted. -/
  | accept (caller : String) (id : ℕ) (args : AppendEntriesArgs)
      (hev : ev = .appendEntries caller id args) (hacc : p.node.Accepts args) :
      LogEffect p ev { p with node := (p.node.appendEntries args).1 }
        [.appendReply caller id (p.node.appendEntries args).2]
  /-- A snapshot is installed. -/
  | snapshot {p' : Proc} {out : List Message} (caller : String) (id : ℕ)
      (args : InstallSnapshotArgs) (hev : ev = .installSnapshot caller id args) :
      LogEffect p ev p' out
  /-- A configuration change begins. -/
  | joint {p' : Proc} {out : List Message} (hjoint : p'.node.configState = .joint) :
      LogEffect p ev p' out
  | reboot {p' : Proc} {out : List Message} (hev : ev.Restarts) : LogEffect p ev p' out

namespace Proc

omit [GrowthPolicy] in
theorem startElection_appends (p : Proc) : p.startElection.1.appends = p.appends := by
  rw [startElection]
  split
  · rfl
  · rfl

theorem startElection_logEffect {p p' : Proc} {ev : Event} {out : List Message}
    {es : List Election} (h : { p with elections := es }.startElection = (p', out)) :
    LogEffect p ev p' out := by
  obtain ⟨hnode, -, hnext, -, hout⟩ := startElection_spec h
  have happ : p'.appends = p.appends := by
    have hkept := startElection_appends { p with elections := es }
    rwa [h] at hkept
  refine .quiet ?_ (fun _ hc => happ ▸ hc) (by rw [hnext]; exact Nat.le_succ _) fun m hm => ?_
  · rw [hnode]
    exact p.node.startElection_log p.nextId
  · obtain ⟨peer, rfl⟩ := hout m hm
    trivial

theorem onSendAppendEntries_logEffect {p : Proc} {ev : Event} {peer : String}
    (hpeer : peer ∈ p.node.peers.keys) : LogEffect p ev (p.onSendAppendEntries peer) [] := by
  have hnone : ∀ m ∈ ([] : List Message), m.Mute := by simp
  unfold onSendAppendEntries RaftNode.sendAppendEntries
  by_cases hlead : p.node.state = .leader
  · rw [if_pos hlead]
    have hlog := p.node.normalizeNext_log peer
    obtain ⟨ni, hshape⟩ := p.node.normalizeNext_shape peer
    have hstate : (p.node.normalizeNext peer).state = .leader := by
      rw [hshape]
      exact hlead
    have hterm : (p.node.normalizeNext peer).currentTerm = p.node.currentTerm := by
      rw [hshape]
    cases hout : p.node.sendOutcome peer p.nextId with
    | idle => exact .quiet hlog (fun _ h => h) le_rfl hnone
    | snapshot => exact .quiet hlog (fun _ h => h) le_rfl hnone
    | request c => exact .send peer c hpeer hlead hout hlog hstate hterm rfl rfl
    | panic => exact .quiet hlog (fun _ h => h) le_rfl hnone
  · rw [if_neg hlead]
    exact .quiet rfl (fun _ h => h) le_rfl hnone

/-- Every step of a stable configuration has one of these effects on the log. -/
theorem step_logEffect {p p' : Proc} {ev : Event} {out : List Message}
    (hstable : p.node.configState = .stable) (h : p.step ev = some (p', out)) :
    LogEffect p ev p' out := by
  -- the node may change as long as its log does not
  have hnode : ∀ {q : Proc} {msgs : List Message}, q.node.log = p.node.log →
      q.appends ⊆ p.appends → q.nextId = p.nextId → (∀ m ∈ msgs, m.Mute) →
      LogEffect p ev q msgs :=
    fun hlog happ hid hmsgs => .quiet hlog happ (le_of_eq hid.symm) hmsgs
  have hsub : p.appends ⊆ p.appends := fun _ h => h
  cases step_cases h with
  | leaderTimeout hlead => exact hnode rfl hsub rfl (by simp)
  | electionTimeout hlead => exact @startElection_logEffect _ p _ _ _ p.elections rfl
  | electionOver id e hfind hdone hover => exact hnode rfl hsub rfl (by simp)
  | electionRetry id e hfind hdone hcand => exact startElection_logEffect rfl
  | requestVote caller id args =>
    exact hnode (p.node.requestVote_log args) hsub rfl (by simp [Message.Mute])
  | voteFailed id peer => exact hnode rfl hsub rfl (by simp [Message.Mute])
  | voteReply id peer reply e hfind hpeer =>
    exact hnode (p.node.handleVoteReply_log e peer reply) hsub rfl (by simp)
  | sendAppendEntries peer hpeer => exact onSendAppendEntries_logEffect hpeer
  | marshal id c hfind hsent =>
    obtain rfl : c.id = id := by simpa using List.find?_some hfind
    exact .marshal c (List.mem_of_find?_eq_some hfind) hsent
  | appendEntries caller id args =>
    by_cases hacc : p.node.Accepts args
    · exact .accept caller id args rfl hacc
    · obtain ⟨hlog, hno⟩ := appendEntries_refuse hacc
      refine hnode hlog hsub rfl fun m hm => ?_
      rw [List.mem_singleton.mp hm]
      exact hno
  | appendFailed id => exact hnode rfl hsub rfl (by simp [Message.Mute])
  | appendReply id reply c hfind =>
    exact hnode (p.node.handleAppendReply_log c reply) (List.filter_subset_self _) rfl (by simp)
  | sendSnapshot peer args hdue hargs =>
    exact .quiet rfl hsub (Nat.le_succ _) (by simp [Message.Mute])
  | noSnapshot peer hdue hnone => exact hnode rfl hsub rfl (by simp)
  | installSnapshot caller id args => exact .snapshot caller id args rfl
  | snapshotFailed id => exact hnode rfl hsub rfl (by simp [Message.Mute])
  | snapshotReply id reply c hfind =>
    exact hnode (p.node.handleSnapshotReply_log c reply) hsub rfl (by simp)
  | submitCommand topic partition data =>
    by_cases hlead : p.node.state = .leader
    · obtain ⟨hlog, hstate, hterm⟩ := submitCommand_leader hlead topic partition data
      exact .append _ hlead rfl hlog hstate hterm rfl rfl
    · refine .quiet ?_ hsub le_rfl (by simp)
      unfold submitCommand
      rw [if_neg hlead]
  | applyCommittedEntries => exact hnode (applyLoop_log _ p.node) hsub rfl (by simp)
  | checkISR => exact hnode p.node.checkISR_log hsub rfl (by simp)
  | addNode addr hok => exact hnode rfl hsub rfl (by simp)
  | removeNode addr hok => exact hnode rfl hsub rfl (by simp)
  | changeConfig addr add hmem => exact .joint (by simp [changeConfig, appendOwn])
  | appendStableConfig =>
    refine hnode ?_ hsub rfl (by simp)
    rw [appendStableConfig_stable hstable]
  | restart => exact .reboot trivial
  | dieServing request term hterm => exact .reboot trivial

end Proc

end DistributedMQ.Raft
