import DistributedMQ.Raft.LogSteps
import DistributedMQ.Raft.NodeOp
import DistributedMQ.Raft.PeerRule

/-!
# What a leader knows about its peers, and what it commits

- `Tracks r`: `matchIndex` has entries for peers only.
- `MatchFrame r r'`: an operation keeps that and takes over or zeroes the
  entries of `matchIndex`.
- `MatchEffect`: what a step does to `matchIndex`. A new leader zeroes it, a
  successful reply sets one entry, everything else is a `MatchFrame`
  (`NodeOp.matchEffect`).
- `handleAppendReply_commit`: an index the commit loop passes is one of the
  leader's own term with a quorum behind it.
-/

namespace DistributedMQ.Raft

namespace RaftNode

/-- Only peers have an entry in `matchIndex`. -/
def Tracks (r : RaftNode) : Prop := ∀ p ∈ r.matchIndex.keys, p ∈ r.peers.keys

structure MatchFrame (r r' : RaftNode) : Prop where
  tracks : r.Tracks → r'.Tracks
  value : ∀ p m, r'.matchIndex.lookup p = some m → m = 0 ∨ r.matchIndex.lookup p = some m

theorem MatchFrame.of_eq {r r' : RaftNode} (hmatch : r'.matchIndex = r.matchIndex)
    (hpeers : r'.peers = r.peers) : MatchFrame r r' where
  tracks h p hp := by
    rw [hpeers]
    exact h p (hmatch ▸ hp)
  value p m h := Or.inr (hmatch ▸ h)

theorem MatchFrame.refl (r : RaftNode) : MatchFrame r r := .of_eq rfl rfl

theorem MatchFrame.trans {r r' r'' : RaftNode} (h : MatchFrame r r') (h' : MatchFrame r' r'') :
    MatchFrame r r'' where
  tracks ht := h'.tracks (h.tracks ht)
  value p m hm := by
    rcases h'.value p m hm with hzero | hold
    · exact Or.inl hzero
    · exact h.value p m hold

/-- A learner starts with nothing acknowledged. -/
theorem matchFrame_addLearner (r : RaftNode) (addr : String) :
    MatchFrame r (r.addLearner addr) := by
  unfold addLearner
  split
  · exact .refl r
  · constructor
    · intro ht p hp
      rw [← AList.mem_keys, AList.mem_insert] at hp ⊢
      rcases hp with rfl | hp
      · exact Or.inl rfl
      · exact Or.inr (AList.mem_keys.mpr (ht p (AList.mem_keys.mp hp)))
    · intro p m hm
      by_cases hpa : p = addr
      · subst hpa
        exact Or.inl (Option.some.inj ((AList.lookup_insert _).symm.trans hm)).symm
      · exact Or.inr ((AList.lookup_insert_ne hpa).symm.trans hm)

theorem matchFrame_dropPeer (r : RaftNode) (addr : String) : MatchFrame r (r.dropPeer addr) := by
  unfold dropPeer
  split
  · exact .refl r
  · constructor
    · intro ht p hp
      rw [← AList.mem_keys, AList.mem_erase] at hp ⊢
      exact ⟨hp.1, AList.mem_keys.mpr (ht p (AList.mem_keys.mp hp.2))⟩
    · intro p m hm
      by_cases hpa : p = addr
      · subst hpa
        exact absurd ((AList.lookup_erase _ _).symm.trans hm) (by simp)
      · exact Or.inr ((AList.lookup_erase_ne hpa).symm.trans hm)

theorem peerRule_match : PeerRule MatchFrame where
  frame _ hpeers _ hmatch := .of_eq hmatch hpeers
  trans := .trans
  append _ _ := .of_eq rfl rfl
  addLearner := matchFrame_addLearner
  dropPeer := matchFrame_dropPeer

theorem matchFrame_normalizeNext (r : RaftNode) (peer : String) :
    MatchFrame r (r.normalizeNext peer) := by
  obtain ⟨ni, h⟩ := r.normalizeNext_shape peer
  rw [h]
  exact .of_eq rfl rfl

/-- A snapshot that was not installed is not recorded. -/
theorem matchFrame_handleSnapshotReply {r : RaftNode} {c : SnapshotCall}
    {reply : InstallSnapshotReply} (hfail : reply.success = false) :
    MatchFrame r (r.handleSnapshotReply c reply) := by
  unfold handleSnapshotReply
  split
  · exact peerRule_match.becomeFollower r reply.term
  · rw [hfail]
    exact .refl r

section growth

variable [GrowthPolicy]

theorem matchFrame_appendEntries (r : RaftNode) (args : AppendEntriesArgs) :
    MatchFrame r (r.appendEntries args).1 := by
  unfold appendEntries
  dsimp only
  split
  · exact .refl r
  split
  · exact peerRule_match.observeTerm r args.term
  split
  · exact peerRule_match.observeTerm r args.term
  · refine (peerRule_match.observeTerm r args.term).trans (.trans ?_
      (peerRule_match.acceptEntries _ args))
    exact .of_eq rfl rfl

end growth

/-! ## A new leader -/

theorem lookup_foldl_insert_zero (l : List String) :
    ∀ (m : GoMap String ℕ) (p : String) (v : ℕ),
      (l.foldl (fun m p => m.insert p 0) m).lookup p = some v →
        (p ∈ l ∧ v = 0) ∨ (p ∉ l ∧ m.lookup p = some v) := by
  induction l with
  | nil => exact fun m p v h => Or.inr ⟨by simp, h⟩
  | cons a l ih =>
    intro m p v h
    rcases ih _ p v h with ⟨hp, hzero⟩ | ⟨hp, hold⟩
    · exact Or.inl ⟨List.mem_cons_of_mem a hp, hzero⟩
    · by_cases hpa : p = a
      · subst hpa
        exact Or.inl ⟨List.mem_cons_self,
          (Option.some.inj ((AList.lookup_insert _).symm.trans hold)).symm⟩
      · refine Or.inr ⟨fun hmem => ?_, (AList.lookup_insert_ne hpa).symm.trans hold⟩
        rcases List.mem_cons.mp hmem with heq | hmem
        · exact hpa heq
        · exact hp hmem

theorem mem_keys_of_lookup {m : GoMap String ℕ} {p : String} {v : ℕ} (h : m.lookup p = some v) :
    p ∈ m.keys :=
  AList.mem_keys.mp (GoMap.mem_iff_exists_lookup.mpr ⟨v, h⟩)

/-- A new leader has an entry for its peers, and no acknowledgement. -/
theorem becomeLeader_matchIndex {r : RaftNode} (h : r.Tracks) :
    r.becomeLeader.Tracks ∧ ∀ p m, r.becomeLeader.matchIndex.lookup p = some m → m = 0 := by
  have hlookup : ∀ p m, r.becomeLeader.matchIndex.lookup p = some m →
      p ∈ r.peers.keys ∧ m = 0 := by
    intro p m hm
    rcases lookup_foldl_insert_zero r.peers.keys r.matchIndex p m hm with hp | ⟨hno, hold⟩
    · exact hp
    · exact absurd (h p (mem_keys_of_lookup hold)) hno
  refine ⟨fun p hp => ?_, fun p m hm => (hlookup p m hm).2⟩
  obtain ⟨m, hm⟩ := GoMap.mem_iff_exists_lookup.mp (AList.mem_keys.mpr hp)
  exact (hlookup p m hm).1

theorem matchFrame_becomeLeader (r : RaftNode) : MatchFrame r r.becomeLeader where
  tracks h := (becomeLeader_matchIndex h).1
  value p m hm := by
    rcases lookup_foldl_insert_zero r.peers.keys r.matchIndex p m hm with ⟨-, hzero⟩ | ⟨-, hold⟩
    · exact Or.inl hzero
    · exact Or.inr hold

theorem matchFrame_startElection (r : RaftNode) (id : ℕ) :
    MatchFrame r (r.startElection id).1 := by
  have hcampaign : MatchFrame r r.campaign := .of_eq rfl rfl
  rw [startElection]
  split
  · exact (hcampaign.trans (matchFrame_becomeLeader _)).trans (peerRule_match.saveState _)
  · exact hcampaign.trans (peerRule_match.saveState _)

theorem matchFrame_handleVoteReply (r : RaftNode) (e : Election) (peer : String)
    (reply : RequestVoteReply) : MatchFrame r (r.handleVoteReply e peer reply).1 := by
  rw [handleVoteReply]
  dsimp only
  split
  · exact peerRule_match.becomeFollower _ _
  split
  · split
    · exact matchFrame_becomeLeader _
    · exact .refl _
  · exact .refl _

/-! ## Commitment -/

/-- The commit loop passes indices of the leader's term with a quorum. -/
theorem commitLoop_spec :
    ∀ (k : ℕ) (r : RaftNode) (n : ℕ), r.commitIndex < n → n ≤ (commitLoop k r).commitIndex →
      n < r.log.len ∧ r.termAt n = r.currentTerm ∧ r.commitQuorum n = true := by
  intro k
  induction k with
  | zero => exact fun r n hlt hle => absurd (lt_of_lt_of_le hlt hle) (lt_irrefl _)
  | succ k ih =>
    intro r n hlt hle
    unfold commitLoop at hle
    dsimp only at hle
    split at hle
    · rename_i hstep
      obtain ⟨pc, cc, hshape⟩ := r.commitTo_shape (r.commitIndex + 1)
      rcases Nat.lt_or_ge (r.commitIndex + 1) n with hn | hn
      · -- committing does not change what the test reads
        have hrest := ih (r.commitTo (r.commitIndex + 1)) n
          (by rw [hshape]; exact hn) hle
        rw [hshape] at hrest
        exact hrest
      · obtain rfl : n = r.commitIndex + 1 := by omega
        exact hstep
    · omega

/-- What the loop has tested still holds when it is done. -/
theorem updateCommitIndex_spec {r : RaftNode} {n : ℕ} (hlt : r.commitIndex < n)
    (hle : n ≤ r.updateCommitIndex.commitIndex) :
    n < r.updateCommitIndex.log.len ∧
      r.updateCommitIndex.termAt n = r.updateCommitIndex.currentTerm ∧
      r.updateCommitIndex.commitQuorum n = true := by
  have hspec := commitLoop_spec _ r n hlt hle
  obtain ⟨m, pc, cc, hshape⟩ := commitLoop_shape r.log.len r
  unfold updateCommitIndex
  rw [hshape]
  exact hspec

theorem updateCommitIndex_matchIndex (r : RaftNode) :
    r.updateCommitIndex.matchIndex = r.matchIndex := by
  obtain ⟨n, pc, cc, h⟩ := commitLoop_shape r.log.len r
  unfold updateCommitIndex
  rw [h]

theorem updateCommitIndex_state (r : RaftNode) : r.updateCommitIndex.state = r.state := by
  obtain ⟨n, pc, cc, h⟩ := commitLoop_shape r.log.len r
  unfold updateCommitIndex
  rw [h]

/-- In a stable configuration of at least `size` members a quorum is the leader
and a set of peers that have acknowledged the index, more than half of `size`. -/
theorem acks_of_commitQuorum {r : RaftNode} {n size : ℕ} (hstable : r.configState = .stable)
    (hsize : size ≤ r.currentConfig.len) (h : r.commitQuorum n = true) :
    ∃ Q : List String, Q.Nodup ∧ size < 2 * (Q.length + 1) ∧
      ∀ p ∈ Q, ∃ m, r.matchIndex.lookup p = some m ∧ n ≤ m := by
  refine ⟨(r.matchIndex.entries.filter fun p =>
    decide (n ≤ p.2) && r.currentConfig.get p.1 false).map Sigma.fst, ?_, ?_, fun p hp => ?_⟩
  · exact r.matchIndex.keys_nodup.sublist (List.filter_sublist.map _)
  · unfold commitQuorum at h
    rw [hstable] at h
    have hcount : r.currentConfig.len / 2 + 1 ≤ 1 + (r.matchIndex.entries.filter fun p =>
        decide (n ≤ p.2) && r.currentConfig.get p.1 false).length := of_decide_eq_true h
    rw [List.length_map]
    omega
  · obtain ⟨⟨q, m⟩, hmem, rfl⟩ := List.mem_map.mp hp
    obtain ⟨hentry, hm⟩ := List.mem_filter.mp hmem
    exact ⟨m, (AList.mem_lookup_iff).mpr hentry, of_decide_eq_true (Bool.and_eq_true_iff.mp hm).1⟩

/-- A reply that counts: the leader's `matchIndex` records it before the commit
loop runs. -/
theorem handleAppendReply_ack {r : RaftNode} {c : AppendCall} {reply : AppendEntriesReply}
    (hterm : reply.term ≤ r.currentTerm) (hlead : r.state = .leader)
    (hsucc : reply.success = true) :
    r.handleAppendReply c reply = updateCommitIndex
      { r with
        nextIndex := r.nextIndex.insert c.peer (c.prevLogIndex + c.entries.len + 1)
        matchIndex := r.matchIndex.insert c.peer (c.prevLogIndex + c.entries.len) } := by
  unfold handleAppendReply
  rw [if_neg (not_lt.mpr hterm), if_neg (not_not.mpr hlead), if_pos hsucc]

/-- A reply that moves the commit index counts, and moves it over committed
indices only. -/
theorem handleAppendReply_commit {r : RaftNode} {c : AppendCall} {reply : AppendEntriesReply}
    {n : ℕ} (hlt : r.commitIndex < n) (hle : n ≤ (r.handleAppendReply c reply).commitIndex) :
    (r.handleAppendReply c reply).state = .leader ∧
      n < (r.handleAppendReply c reply).log.len ∧
      (r.handleAppendReply c reply).termAt n = (r.handleAppendReply c reply).currentTerm ∧
      (r.handleAppendReply c reply).commitQuorum n = true := by
  have hno : ¬ n ≤ r.commitIndex := not_le.mpr hlt
  unfold handleAppendReply at hle ⊢
  split at hle
  · exact absurd hle (by simpa [becomeFollower, closePending] using hno)
  split at hle
  · exact absurd hle hno
  split at hle
  · rename_i hterm hlead hsucc
    rw [if_neg hterm, if_neg hlead, if_pos hsucc]
    refine ⟨?_, updateCommitIndex_spec hlt hle⟩
    rw [updateCommitIndex_state]
    exact not_not.mp hlead
  split at hle
  · exact absurd hle hno
  · exact absurd hle hno

end RaftNode

open RaftNode

variable [GrowthPolicy]

/-! ## What a step can do to `matchIndex` -/

inductive MatchEffect (p : Proc) (ev : Event) (r : RaftNode) : Prop where
  /-- Entries are kept or zeroed, and nobody begins to lead. -/
  | frame (h : MatchFrame p.node r) (hlead : r.state = .leader → p.node.state = .leader)
  /-- A new leader. -/
  | reset (hpeers : r.peers = p.node.peers)
      (h : p.node.Tracks → r.Tracks ∧ ∀ q m, r.matchIndex.lookup q = some m → m = 0)
  /-- A leader records a successful reply. -/
  | ack (c : AppendCall) (reply : AppendEntriesReply) (hev : ev = .appendReply c.id reply)
      (hc : c ∈ p.appends) (hlead : p.node.state = .leader) (hsucc : reply.success = true)
      (hr : r = updateCommitIndex
        { p.node with
          nextIndex := p.node.nextIndex.insert c.peer (c.prevLogIndex + c.entries.len + 1)
          matchIndex := p.node.matchIndex.insert c.peer (c.prevLogIndex + c.entries.len) })
  | snapshot (caller : String) (id : ℕ) (args : InstallSnapshotArgs)
      (hev : ev = .installSnapshot caller id args)
  /-- An installed snapshot is recorded. -/
  | snapshotReply (id : ℕ) (reply : InstallSnapshotReply) (hev : ev = .snapshotReply id reply)
      (hsucc : reply.success = true)
  | reboot (hev : ev.Restarts)

omit [GrowthPolicy] in
theorem RaftNode.Calm.lead {r r' : RaftNode} (h : Calm r r') (hlead : r'.state = .leader) :
    r.state = .leader := by
  cases h.move with
  | stay hstate => exact hstate ▸ hlead
  | down hstate =>
    rw [hstate] at hlead
    cases hlead

omit [GrowthPolicy] in
/-- A vote does not make a leader. -/
theorem RaftNode.requestVote_lead {r : RaftNode} {args : RequestVoteArgs}
    (hlead : (r.requestVote args).1.state = .leader) : r.state = .leader := by
  rcases r.requestVote_cases args with ⟨-, hcalm⟩ | ⟨-, hg⟩
  · exact hcalm.lead hlead
  · rcases hg.state with ⟨hstate, -⟩ | ⟨hstate, -⟩
    · exact hstate ▸ hlead
    · rw [hstate] at hlead
      cases hlead

theorem NodeOp.matchEffect {p : Proc} {ev : Event} {r : RaftNode} (h : NodeOp p ev r) :
    MatchEffect p ev r := by
  cases h with
  | same => exact .frame (.refl _) fun hl => hl
  | startElection _ hlead id =>
    unfold RaftNode.startElection
    split
    · -- without peers the candidate leads at once
      refine .reset (by simp [becomeLeader, closePending, campaign]) fun ht => ?_
      obtain ⟨htracks, hzero⟩ := @becomeLeader_matchIndex p.node.campaign ht
      exact ⟨(peerRule_match.saveState _).tracks htracks, fun q m hm =>
        hzero q m (by rwa [saveState_matchIndex] at hm)⟩
    · refine .frame (.trans ?_ (peerRule_match.saveState _)) fun hl => ?_
      · exact .of_eq rfl rfl
      · simp [campaign] at hl
  | requestVote caller id args => exact .frame (peerRule_match.requestVote _ _) requestVote_lead
  | voteReply id peer reply e =>
    unfold handleVoteReply
    dsimp only
    split
    · exact .frame (peerRule_match.becomeFollower _ _) (calm_becomeFollower ‹_›).lead
    split
    · split
      · exact .reset rfl becomeLeader_matchIndex
      · exact .frame (.refl _) fun hl => hl
    · exact .frame (.refl _) fun hl => hl
  | sendAppendEntries peer hlead => exact .frame (matchFrame_normalizeNext _ _) fun _ => hlead
  | appendEntries caller id args =>
    exact .frame (matchFrame_appendEntries _ _) (calm_appendEntries _ _).lead
  | appendReply id reply c hc hid =>
    have hlead := (calm_handleAppendReply p.node c reply).lead
    -- only a success at a leader that is not behind counts
    by_cases hterm : reply.term ≤ p.node.currentTerm
    · by_cases hstate : p.node.state = .leader
      · by_cases hsucc : reply.success = true
        · exact .ack c reply (by rw [hid]) hc hstate hsucc (handleAppendReply_ack hterm hstate hsucc)
        · refine .frame ?_ hlead
          unfold handleAppendReply
          rw [if_neg (not_lt.mpr hterm), if_neg (not_not.mpr hstate), if_neg hsucc]
          split
          · exact .of_eq rfl rfl
          · exact .refl _
      · refine .frame ?_ hlead
        unfold handleAppendReply
        rw [if_neg (not_lt.mpr hterm), if_pos hstate]
        exact .refl _
    · refine .frame ?_ hlead
      unfold handleAppendReply
      rw [if_pos (not_le.mp hterm)]
      exact peerRule_match.becomeFollower _ _
  | installSnapshot caller id args => exact .snapshot caller id args rfl
  | snapshotReply id reply c _ =>
    by_cases hsucc : reply.success = true
    · exact .snapshotReply id reply rfl hsucc
    · exact .frame (matchFrame_handleSnapshotReply (Bool.not_eq_true _ ▸ hsucc))
        (calm_handleSnapshotReply p.node c reply).lead
  | submitCommand topic partition data =>
    exact .frame (peerRule_match.submitCommand _ _ _ _) (calm_submitCommand _ _ _ _).lead
  | applyCommittedEntries => exact .frame (peerRule_match.applyLoop _ _) (calm_applyLoop _ _).lead
  | checkISR => exact .frame (peerRule_match.checkISR _) (calm_checkISR _).lead
  | changeConfig addr add =>
    exact .frame (peerRule_match.changeConfig _ _ _) (calm_changeConfig _ _ _).lead
  | appendStableConfig =>
    exact .frame (peerRule_match.appendStableConfig _) (calm_appendStableConfig _).lead
  | restart _ hev => exact .reboot hev

end DistributedMQ.Raft
