import DistributedMQ.Lib.Majority
import DistributedMQ.Raft.LogMatching
import DistributedMQ.Raft.MatchIndex
import DistributedMQ.Raft.PeerViews

/-!
# What a commit rests on (`raft.go` lines 433–489 and 529–564)

`updateCommitIndex` counts acknowledgements from a hard-wired 1, its own, and
`SubmitCommand` commits at once when `r.peers` is empty. Neither asks whether
the leader is a member, and the second does not look at the configuration.

- `Outward`: a node has no call to itself on the way and no acknowledgement of
  its own in `matchIndex`, so the 1 is never counted twice. This holds in every
  run, restarts and snapshots included.
- `commit_has_quorum`: a leader that is a member of the configurations it counts
  (the only one, where it commits alone) commits with a strict majority of each.
- `joint_leader_commits_alone`: a leader without peers commits in a joint
  configuration of two.
-/

namespace DistributedMQ.Raft

open Machine

namespace RaftNode

/-- As far as the leader knows, `a` has the entries up to `n`: `a` is the leader
or its recorded `matchIndex` has reached `n`. -/
def Acked (r : RaftNode) (n : ℕ) (a : String) : Prop :=
  a = r.selfAddr ∨ ∃ m ∈ r.matchIndex.lookup a, n ≤ m

/-- The members that have the entries up to `n` are a strict majority of
`currentConfig` and, in the joint state, of `newConfig`. -/
def HasQuorum (r : RaftNode) (n : ℕ) : Prop :=
  Majority r.currentConfig.keys (r.Acked n) ∧
    (r.configState = .joint → Majority ((r.newConfig.map AList.keys).getD []) (r.Acked n))

/-- The node is a member of the configurations it counts. -/
def IsMember (r : RaftNode) : Prop :=
  r.currentConfig.get r.selfAddr false = true ∧
    (r.configState = .joint → r.inNewConfig r.selfAddr = true)

/-- The node is the only member of the configurations it counts. -/
def IsOnlyMember (r : RaftNode) : Prop :=
  r.currentConfig.keys = [r.selfAddr] ∧
    (r.configState = .joint → (r.newConfig.map AList.keys).getD [] = [r.selfAddr])

instance (r : RaftNode) (n : ℕ) : DecidablePred (r.Acked n) := fun _ =>
  inferInstanceAs (Decidable (_ ∨ _))

instance (r : RaftNode) (n : ℕ) : Decidable (r.HasQuorum n) := inferInstanceAs (Decidable (_ ∧ _))

instance (r : RaftNode) : Decidable r.IsMember := inferInstanceAs (Decidable (_ ∧ _))

instance (r : RaftNode) : Decidable r.IsOnlyMember := inferInstanceAs (Decidable (_ ∧ _))

/-! ## Counting -/

variable {r : RaftNode} {n : ℕ}

/-- The peers of a configuration that have acknowledged `n`. -/
def counted (r : RaftNode) (config : GoMap String Bool) (n : ℕ) : List String :=
  (r.matchIndex.entries.filter fun p =>
    decide (n ≤ p.2) && config.get p.1 false).map Sigma.fst

theorem mem_counted {config : GoMap String Bool} {a : String} :
    a ∈ r.counted config n ↔
      config.get a false = true ∧ ∃ m ∈ r.matchIndex.lookup a, n ≤ m := by
  constructor
  · intro ha
    obtain ⟨⟨q, m⟩, hmem, rfl⟩ := List.mem_map.mp ha
    obtain ⟨hentry, hm⟩ := List.mem_filter.mp hmem
    obtain ⟨hle, hin⟩ := Bool.and_eq_true_iff.mp hm
    exact ⟨hin, m, AList.mem_lookup_iff.mpr hentry, of_decide_eq_true hle⟩
  · rintro ⟨hin, m, hm, hle⟩
    refine List.mem_map.mpr ⟨⟨a, m⟩, List.mem_filter.mpr ⟨AList.mem_lookup_iff.mp hm, ?_⟩, rfl⟩
    exact Bool.and_eq_true_iff.mpr ⟨decide_eq_true hle, hin⟩

theorem nodup_counted (config : GoMap String Bool) : (r.counted config n).Nodup :=
  r.matchIndex.keys_nodup.sublist (List.filter_sublist.map _)

theorem ackCount_eq (config : GoMap String Bool) :
    r.ackCount (fun a => config.get a false) n = (r.counted config n).length + 1 := by
  rw [ackCount, counted, List.length_map, Nat.add_comm]

/-- A count that starts from the leader's 1 is a count of members, if the leader
is one of them and has no entry of its own. -/
theorem majority_counted {config : GoMap String Bool}
    (hbelow : ∀ m, r.matchIndex.lookup r.selfAddr = some m → m < n)
    (hself : config.get r.selfAddr false = true)
    (h : config.len / 2 + 1 ≤ r.ackCount (fun a => config.get a false) n) :
    Majority config.keys fun a => config.get a false = true ∧ r.Acked n a := by
  have hfresh : r.selfAddr ∉ r.counted config n := by
    intro hmem
    obtain ⟨-, m, hm, hle⟩ := mem_counted.mp hmem
    exact absurd hle (not_le.mpr (hbelow m hm))
  -- the leader, and the peers that are counted
  have hmember : ∀ a ∈ r.selfAddr :: r.counted config n,
      config.get a false = true ∧ r.Acked n a := by
    intro a ha
    rcases List.mem_cons.mp ha with rfl | ha
    · exact ⟨hself, Or.inl rfl⟩
    · exact ⟨(mem_counted.mp ha).1, Or.inr (mem_counted.mp ha).2⟩
  refine ⟨r.selfAddr :: r.counted config n,
    List.nodup_cons.mpr ⟨hfresh, nodup_counted config⟩, fun a ha => ?_, ?_, hmember⟩
  · exact GoMap.mem_keys_of_get (hmember a ha).1
  · have hkeys : config.keys.length = config.len := List.length_map _
    rw [ackCount_eq] at h
    rw [hkeys, List.length_cons]
    omega

/-- Conversely the count misses no member that has acknowledged. -/
theorem ackCount_of_majority {config : GoMap String Bool}
    (h : Majority config.keys fun a => config.get a false = true ∧ r.Acked n a) :
    config.len / 2 + 1 ≤ r.ackCount (fun a => config.get a false) n := by
  obtain ⟨Q, hnodup, -, hlen, hQ⟩ := h
  have hkeys : config.keys.length = config.len := List.length_map _
  have hothers : (Q.erase r.selfAddr).length ≤ (r.counted config n).length := by
    refine ((hnodup.erase _).subperm fun a ha => ?_).length_le
    obtain ⟨hne, hmem⟩ := hnodup.mem_erase_iff.mp ha
    obtain ⟨hin, hacked⟩ := hQ a hmem
    exact mem_counted.mpr ⟨hin, hacked.resolve_left hne⟩
  have herase : Q.length ≤ (Q.erase r.selfAddr).length + 1 := by
    rw [List.length_erase]
    split
    · omega
    · omega
  rw [hkeys] at hlen
  rw [ackCount_eq]
  omega

theorem majority_of_ackCount {config : GoMap String Bool} (hn : 0 < n)
    (hzero : ∀ m, r.matchIndex.lookup r.selfAddr = some m → m = 0)
    (hself : config.get r.selfAddr false = true)
    (h : config.len / 2 + 1 ≤ r.ackCount (fun a => config.get a false) n) :
    Majority config.keys (r.Acked n) := by
  have hbelow : ∀ m, r.matchIndex.lookup r.selfAddr = some m → m < n := by
    intro m hm
    rw [hzero m hm]
    exact hn
  exact (majority_counted hbelow hself h).mono fun _ _ ha => ha.2

/-- The quorum test of a member is a majority of each configuration. -/
theorem hasQuorum_of_commitQuorum (hn : 0 < n)
    (hzero : ∀ m, r.matchIndex.lookup r.selfAddr = some m → m = 0) (hmember : r.IsMember)
    (h : r.commitQuorum n = true) : r.HasQuorum n := by
  rw [commitQuorum] at h
  cases hstate : r.configState with
  | stable =>
    rw [hstate] at h
    refine ⟨majority_of_ackCount hn hzero hmember.1 (of_decide_eq_true h), fun hjoint => ?_⟩
    rw [hstate] at hjoint
    cases hjoint
  | joint =>
    rw [hstate] at h
    -- both counts have to pass
    obtain ⟨hold, hnew⟩ := Bool.and_eq_true_iff.mp h
    refine ⟨majority_of_ackCount hn hzero hmember.1 (of_decide_eq_true hold), fun _ => ?_⟩
    have hin := hmember.2 hstate
    cases hconfig : r.newConfig with
    | none =>
      rw [inNewConfig, hconfig] at hin
      cases hin
    | some config =>
      have hinEq : r.inNewConfig = fun a => config.get a false := by
        funext a
        rw [inNewConfig, hconfig]
        rfl
      have hlen : r.newConfigLen = config.len := by
        rw [newConfigLen, hconfig]
        rfl
      rw [hinEq, hlen] at hnew
      rw [hinEq] at hin
      exact majority_of_ackCount hn hzero hin (of_decide_eq_true hnew)

/-- A node alone in its configurations is a majority of them. -/
theorem hasQuorum_of_isOnlyMember (h : r.IsOnlyMember) : r.HasQuorum n := by
  have hone : Majority [r.selfAddr] (r.Acked n) :=
    ⟨[r.selfAddr], List.nodup_singleton _, fun _ ha => ha, by simp,
      fun a ha => Or.inl (List.mem_singleton.mp ha)⟩
  refine ⟨?_, fun hjoint => ?_⟩
  · rw [h.1]
    exact hone
  · rw [h.2 hjoint]
    exact hone

end RaftNode

/-! ## Nobody acknowledges to itself -/

namespace Proc

/-- The peers that calls of the process are on the way to, or about to be. -/
def addressees (p : Proc) : List String :=
  p.appends.map AppendCall.peer ++ p.snapshots.map SnapshotCall.peer ++ p.snapshotsDue

theorem mem_addressees {p : Proc} {a : String} :
    a ∈ p.addressees ↔ (∃ c ∈ p.appends, c.peer = a) ∨ (∃ c ∈ p.snapshots, c.peer = a) ∨
      a ∈ p.snapshotsDue := by
  simp [addressees]

/-- Calls can be given up. -/
theorem addressees_subset {p p' : Proc} (happ : p'.appends ⊆ p.appends)
    (hsnap : p'.snapshots ⊆ p.snapshots) (hdue : p'.snapshotsDue ⊆ p.snapshotsDue) :
    p'.addressees ⊆ p.addressees := by
  intro a ha
  rw [mem_addressees] at ha ⊢
  rcases ha with ⟨c, hc, hpeer⟩ | ⟨c, hc, hpeer⟩ | ha
  · exact Or.inl ⟨c, happ hc, hpeer⟩
  · exact Or.inr (Or.inl ⟨c, hsnap hc, hpeer⟩)
  · exact Or.inr (Or.inr (hdue ha))

theorem addressees_startElection (p : Proc) :
    p.startElection.1.addressees = p.addressees := by
  rw [startElection]
  split
  · rfl
  · rfl

theorem addressees_markSent (p : Proc) (id : ℕ) :
    ({ p with appends := markSent p.appends id } : Proc).addressees = p.addressees := by
  have hpeers : (markSent p.appends id).map AppendCall.peer = p.appends.map AppendCall.peer := by
    rw [markSent, List.map_map]
    refine List.map_congr_left fun c _ => ?_
    show (if c.id = id then _ else c).peer = c.peer
    split
    · rfl
    · rfl
  show (markSent p.appends id).map _ ++ _ ++ _ = _
  rw [hpeers]
  rfl

/-- A new call goes to the peer it is made for. -/
theorem addressees_onSendAppendEntries (p : Proc) (peer : String) :
    ∀ a ∈ (p.onSendAppendEntries peer).addressees, a ∈ p.addressees ∨ a = peer := by
  intro a ha
  rw [onSendAppendEntries, RaftNode.sendAppendEntries] at ha
  by_cases hlead : p.node.state = .leader
  · rw [if_pos hlead] at ha
    cases hout : p.node.sendOutcome peer p.nextId with
    | idle =>
      rw [hout] at ha
      exact Or.inl ha
    | panic =>
      rw [hout] at ha
      exact Or.inl ha
    | snapshot =>
      rw [hout, mem_addressees] at ha
      rw [mem_addressees]
      rcases ha with h | h | h
      · exact Or.inl (Or.inl h)
      · exact Or.inl (Or.inr (Or.inl h))
      · rcases List.mem_cons.mp h with h | h
        · exact Or.inr h
        · exact Or.inl (Or.inr (Or.inr h))
    | request c =>
      obtain ⟨-, hpeer, -⟩ := sendOutcome_request hout
      rw [hout, mem_addressees] at ha
      rw [mem_addressees]
      rcases ha with ⟨c', hc', rfl⟩ | h | h
      · rcases List.mem_append.mp hc' with hc' | hc'
        · exact Or.inl (Or.inl ⟨c', hc', rfl⟩)
        · rw [List.mem_singleton.mp hc']
          exact Or.inr hpeer
      · exact Or.inl (Or.inr (Or.inl h))
      · exact Or.inl (Or.inr (Or.inr h))
  · rw [if_neg hlead] at ha
    exact Or.inl ha

variable [GrowthPolicy]

/-- A call goes to a peer of its time. -/
theorem next_addressees {p p' : Proc} {ev : Event} (h : p.next ev = some p') :
    ∀ a ∈ p'.addressees, a ∈ p.addressees ∨ a ∈ p.node.peers.keys := by
  have hsub : ∀ {q : Proc}, q.addressees ⊆ p.addressees →
      ∀ a ∈ q.addressees, a ∈ p.addressees ∨ a ∈ p.node.peers.keys :=
    fun hq a ha => Or.inl (hq ha)
  obtain ⟨out, hcase⟩ := next_cases h
  cases hcase with
  | electionTimeout hlead => exact hsub fun a ha => p.addressees_startElection ▸ ha
  | electionRetry id e hfind hdone hcand =>
    refine hsub fun a ha => ?_
    rwa [addressees_startElection] at ha
  | sendAppendEntries peer hpeer =>
    intro a ha
    rcases p.addressees_onSendAppendEntries peer a ha with hold | rfl
    · exact Or.inl hold
    · exact Or.inr hpeer
  | marshal id c hfind hsent => exact hsub fun a ha => p.addressees_markSent id ▸ ha
  | appendReply id reply c hfind =>
    exact hsub (addressees_subset (List.filter_subset_self _) (fun _ hc => hc) fun _ ha => ha)
  | sendSnapshot peer args hdue hargs =>
    -- a due snapshot becomes a call to the same peer
    refine hsub fun a ha => ?_
    rw [mem_addressees] at ha ⊢
    rcases ha with ha | ⟨c, hc, rfl⟩ | ha
    · exact Or.inl ha
    · rcases List.mem_append.mp hc with hc | hc
      · exact Or.inr (Or.inl ⟨c, hc, rfl⟩)
      · rw [List.mem_singleton.mp hc]
        exact Or.inr (Or.inr hdue)
    · exact Or.inr (Or.inr (List.erase_subset ha))
  | noSnapshot peer hdue hnone =>
    exact hsub (addressees_subset (fun _ hc => hc) (fun _ hc => hc) List.erase_subset)
  | snapshotReply id reply c hfind =>
    exact hsub (addressees_subset (fun _ hc => hc) (List.filter_subset_self _) fun _ ha => ha)
  | restart => exact hsub (List.nil_subset _)
  | dieServing request term hterm => exact hsub (List.nil_subset _)
  -- the other events start and finish no call
  | _ => exact hsub fun _ ha => ha

end Proc

namespace RaftNode

/-- A reply sets the entry of the peer that was called, or nothing. -/
theorem handleAppendReply_matchIndex (r : RaftNode) (c : AppendCall) (reply : AppendEntriesReply) :
    (r.handleAppendReply c reply).matchIndex = r.matchIndex ∨
      ∃ m, (r.handleAppendReply c reply).matchIndex = r.matchIndex.insert c.peer m := by
  rw [handleAppendReply]
  split
  · refine Or.inl ?_
    rw [becomeFollower, saveState_matchIndex]
    rfl
  split
  · exact Or.inl rfl
  split
  · refine Or.inr ⟨c.prevLogIndex + c.entries.len, ?_⟩
    rw [updateCommitIndex_matchIndex]
  split
  · exact Or.inl rfl
  · exact Or.inl rfl

theorem handleSnapshotReply_matchIndex (r : RaftNode) (c : SnapshotCall)
    (reply : InstallSnapshotReply) :
    (r.handleSnapshotReply c reply).matchIndex = r.matchIndex ∨
      ∃ m, (r.handleSnapshotReply c reply).matchIndex = r.matchIndex.insert c.peer m := by
  rw [handleSnapshotReply]
  split
  · refine Or.inl ?_
    rw [becomeFollower, saveState_matchIndex]
    rfl
  split
  · exact Or.inr ⟨_, rfl⟩
  · exact Or.inl rfl

theorem matchFrame_installSnapshot [GrowthPolicy] (r : RaftNode) (args : InstallSnapshotArgs) :
    MatchFrame r (r.installSnapshot args).1 := by
  rw [installSnapshot]
  split
  · exact .refl r
  refine (peerRule_match.observeTerm r args.term).trans ?_
  dsimp only
  split
  · exact .refl _
  · refine .trans ?_ (peerRule_match.saveState _)
    exact .of_eq rfl rfl

/-- What is recorded after a reply was recorded before, or comes from the peer
that was called. -/
theorem lookup_of_insert {m m' : GoMap String ℕ} {peer a : String} {v : ℕ}
    (h : m' = m ∨ ∃ w, m' = m.insert peer w) (hv : m'.lookup a = some v) :
    m.lookup a = some v ∨ a = peer := by
  rcases h with rfl | ⟨w, rfl⟩
  · exact Or.inl hv
  · by_cases ha : a = peer
    · exact Or.inr ha
    · exact Or.inl ((AList.lookup_insert_ne ha).symm.trans hv)

end RaftNode

open RaftNode

section runs

variable [GrowthPolicy]

/-- An acknowledgement in `matchIndex` was there before, or comes from a peer
that a call was on the way to. -/
theorem NodeOp.lookup_matchIndex {p : Proc} {ev : Event} {r : RaftNode} (h : NodeOp p ev r)
    {a : String} {m : ℕ} (hm : r.matchIndex.lookup a = some m) :
    m = 0 ∨ p.node.matchIndex.lookup a = some m ∨ a ∈ p.addressees := by
  have hframe : ∀ {r' : RaftNode}, MatchFrame p.node r' → r'.matchIndex.lookup a = some m →
      m = 0 ∨ p.node.matchIndex.lookup a = some m ∨ a ∈ p.addressees := by
    intro r' hf hm'
    rcases hf.value a m hm' with hzero | hold
    · exact Or.inl hzero
    · exact Or.inr (Or.inl hold)
  cases h with
  | same => exact hframe (.refl _) hm
  | startElection _ _ id => exact hframe (matchFrame_startElection _ id) hm
  | requestVote caller id args => exact hframe (peerRule_match.requestVote _ _) hm
  | voteReply id peer reply e _ => exact hframe (matchFrame_handleVoteReply _ e peer reply) hm
  | sendAppendEntries peer _ => exact hframe (matchFrame_normalizeNext _ _) hm
  | appendEntries caller id args => exact hframe (matchFrame_appendEntries _ _) hm
  | appendReply id reply c hc _ =>
    -- the reply of a peer that was called
    rcases lookup_of_insert (handleAppendReply_matchIndex _ c reply) hm with hold | rfl
    · exact Or.inr (Or.inl hold)
    · exact Or.inr (Or.inr (Proc.mem_addressees.mpr (Or.inl ⟨c, hc, rfl⟩)))
  | installSnapshot caller id args => exact hframe (matchFrame_installSnapshot _ args) hm
  | snapshotReply id reply c hc =>
    rcases lookup_of_insert (handleSnapshotReply_matchIndex _ c reply) hm with hold | rfl
    · exact Or.inr (Or.inl hold)
    · exact Or.inr (Or.inr (Proc.mem_addressees.mpr (Or.inr (Or.inl ⟨c, hc, rfl⟩))))
  | submitCommand topic partition data => exact hframe (peerRule_match.submitCommand _ _ _ _) hm
  | applyCommittedEntries => exact hframe (peerRule_match.applyLoop _ _) hm
  | checkISR => exact hframe (peerRule_match.checkISR _) hm
  | changeConfig addr add => exact hframe (peerRule_match.changeConfig _ _ _) hm
  | appendStableConfig => exact hframe (peerRule_match.appendStableConfig _) hm
  | restart _ _ r _ =>
    rw [newRaftNode_matchIndex] at hm
    cases hm

/-- The process knows nothing of itself as a peer: it is not in `r.peers`, no
call goes to it, and `matchIndex` has nothing from it. -/
structure Outward (addr : String) (p : Proc) : Prop where
  excludes : Excludes addr p.node
  calls : addr ∉ p.addressees
  acks : ∀ m, p.node.matchIndex.lookup addr = some m → m = 0

theorem outward_boot (self : String) (peers : List String) (dir : String) (disk : Disk) :
    Outward self (Proc.boot self peers dir disk) where
  excludes := excludes_newRaftNode self peers dir disk
  calls := List.not_mem_nil
  acks m hm := by
    change (newRaftNode self peers dir disk).matchIndex.lookup self = some m at hm
    rw [newRaftNode_matchIndex] at hm
    cases hm

/-- No step makes a process its own peer or has it acknowledge to itself. -/
theorem Outward.next {self : String} {p p' : Proc} {ev : Event} (h : Outward self p)
    (hst : p.next ev = some p') : Outward self p' where
  excludes := h.excludes.next hst
  calls hmem := by
    rcases Proc.next_addressees hst self hmem with hold | hpeer
    · exact h.calls hold
    · exact h.excludes.peers hpeer
  acks m hm := by
    rcases (Proc.next_nodeOp hst).lookup_matchIndex hm with hzero | hold | hcall
    · exact hzero
    · exact h.acks m hold
    · exact absurd hcall h.calls

/-! ## Commits -/

/-- The leader may commit: where it counts replies it is a member of what it
counts, and where it commits without asking it is the only member. -/
def Proc.CommitsAsMember (p : Proc) : Event → Prop
  | .appendReply _ _ => p.node.IsMember
  | .submitCommand _ _ _ => p.node.peers.keys = [] → p.node.IsOnlyMember
  | _ => True

instance (p : Proc) (ev : Event) : Decidable (p.CommitsAsMember ev) := by
  apply Event.casesOn (motive := fun ev => Decidable (p.CommitsAsMember ev)) ev <;> intros <;>
    unfold Proc.CommitsAsMember <;> infer_instance

/-- The node with the maps a commit is decided on: `updateCommitIndex` runs after
the reply has been recorded, the no-peer path before the new entry is applied. -/
def Proc.deciding (p p' : Proc) : Event → RaftNode
  | .appendReply _ _ => p'.node
  | _ => p.node

/-- The events that run `updateCommitIndex` or `SubmitCommand`. -/
def Event.Commits : Event → Prop
  | .appendReply _ _ | .submitCommand _ _ _ => True
  | _ => False

omit [GrowthPolicy] in
theorem handleAppendReply_hasQuorum {r : RaftNode} {c : AppendCall} {reply : AppendEntriesReply}
    {n : ℕ} (hzero : ∀ m, (r.handleAppendReply c reply).matchIndex.lookup r.selfAddr = some m → m = 0)
    (hmember : r.IsMember) (hlt : r.commitIndex < n)
    (hle : n ≤ (r.handleAppendReply c reply).commitIndex) :
    (r.handleAppendReply c reply).HasQuorum n := by
  obtain ⟨-, -, -, hquorum⟩ := handleAppendReply_commit hlt hle
  have hviews := r.views_handleAppendReply c reply
  have hself := selfAddr_of_views hviews
  refine hasQuorum_of_commitQuorum (Nat.zero_lt_of_lt hlt) (hself ▸ hzero) ?_ hquorum
  rw [IsMember, inNewConfig, hself, currentConfig_of_views hviews, newConfig_of_views hviews,
    configState_of_views hviews]
  exact hmember

/-- A leader with peers leaves its commit index alone when it takes a command. -/
theorem submitCommand_commitIndex {r : RaftNode} {topic : String} {partition : ℤ}
    {data : List UInt8}
    (h : (r.submitCommand topic partition data).1.commitIndex ≠ r.commitIndex) :
    r.peers.keys = [] := by
  by_contra hpeers
  refine h ?_
  rw [submitCommand]
  split
  · dsimp only
    rw [if_neg (by simpa [appendOwn] using hpeers)]
    simp [appendOwn]
  · rfl

/-- **Commits need a quorum.** Start a node on any files and let it serve any
events, snapshots and restarts included. When handling a reply or taking a
command moves its commit index over `n`, and the leader is a member of the
configurations it counts (the only member, if it commits without peers), the
members that have acknowledged `n`, the leader among them, are a strict majority
of `currentConfig` and, in the joint state, of `newConfig`. -/
theorem commit_has_quorum {self : String} {peers : List String} {dir : String} {disk : Disk}
    {p p' : Proc} {ev : Event} {n : ℕ}
    (hrun : Run Proc.next (fun _ _ _ => True) (Proc.boot self peers dir disk) p)
    (hst : p.next ev = some p') (hev : ev.Commits) (hmember : p.CommitsAsMember ev)
    (hlt : p.node.commitIndex < n) (hle : n ≤ p'.node.commitIndex) :
    (p.deciding p' ev).HasQuorum n := by
  have hout : Outward self p := by
    refine hrun.invariant (P := Outward self) (outward_boot self peers dir disk) ?_
    intro p ev p' h _ hst
    exact h.next hst
  have hout' := hout.next hst
  cases ev with
  | appendReply id reply =>
    obtain ⟨⟨q, out⟩, hstep, rfl⟩ := Option.map_eq_some_iff.mp hst
    obtain ⟨c, -, -, hnode⟩ := Proc.step_appendReply hstep
    show q.node.HasQuorum n
    have hacks := hout'.acks
    rw [← hout.excludes.name] at hacks
    dsimp only at hle hacks
    rw [hnode] at hle hacks ⊢
    exact handleAppendReply_hasQuorum hacks hmember hlt hle
  | submitCommand topic partition data =>
    rw [Proc.next_submitCommand hst] at hle
    have hpeers := submitCommand_commitIndex (lt_of_lt_of_le hlt hle).ne'
    exact hasQuorum_of_isOnlyMember (hmember hpeers)
  | _ => exact hev.elim

end runs

section traces

open scoped GrowthPolicy

/-- The files of `a` with a log of 999 committed entries. -/
def memberDisk : Disk := Cluster.savedDisk ["a", "b", "c"] 1 999 (history 999)

/-- `a` leads `b` and `c`, takes a command and commits it on the reply of `b`. -/
theorem commit_has_quorum_of_three :
    ∃ p p', Run Proc.next (fun _ _ _ => True) (Proc.boot "a" ["b", "c"] "data" memberDisk) p ∧
      p.next (.appendReply 1 { term := 2, success := true }) = some p' ∧
      p'.node.commitIndex = 1000 ∧ p'.node.HasQuorum 1000 := by
  obtain ⟨p, p', hrun, hst, hmember, hlt, hcommit⟩ : ∃ p p',
      Run Proc.next (fun _ _ _ => True) (Proc.boot "a" ["b", "c"] "data" memberDisk) p ∧
        p.next (.appendReply 1 { term := 2, success := true }) = some p' ∧
        p.CommitsAsMember (.appendReply 1 { term := 2, success := true }) ∧
        p.node.commitIndex < 1000 ∧ p'.node.commitIndex = 1000 :=
    exists_last_step_of_execWith
      [Event.electionTimeout, .voteReply 0 "b" { term := 2, voteGranted := true },
        .submitCommand "t" 0 [1], .sendAppendEntries "b", .marshal 1]
      (.appendReply 1 { term := 2, success := true }) (by decide +kernel)
  exact ⟨p, p', hrun, hst, hcommit,
    commit_has_quorum hrun hst trivial hmember hlt (le_of_eq hcommit.symm)⟩

/-- **A commit without a quorum.** `a` leads alone and begins to add `b`. The
next command commits at once, because `b` becomes a peer only when the
`JOINT_CONSENSUS` entry is applied: in the joint configuration of `a` and `b`
nobody but `a` has it. -/
theorem joint_leader_commits_alone :
    ∃ p p', Run Proc.next (fun _ _ _ => True) (Proc.boot "a" [] "data" {}) p ∧
      p.next (.submitCommand "t" 0 [1]) = some p' ∧ p.node.state = .leader ∧
      p.node.configState = .joint ∧ p.node.newConfig.map AList.keys = some ["b", "a"] ∧
      p.node.commitIndex < 2 ∧ p'.node.commitIndex = 2 ∧ ¬p.node.HasQuorum 2 :=
  exists_last_step_of_execWith [Event.electionTimeout, .addNode "b", .changeConfig "b" true]
    (.submitCommand "t" 0 [1]) (by decide +kernel)

end traces

end DistributedMQ.Raft
