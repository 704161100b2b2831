import DistributedMQ.Raft.Cluster
import DistributedMQ.Raft.Frame
import DistributedMQ.Raft.StepCases

/-!
# Static membership

- `SameMembership r r'`: an operation leaves the membership maps alone;
  `Cluster.Static` is the guard of runs without a membership change.
- `Settled members r`: the peers of a node are the other members, all of them
  voters, in a stable configuration of exactly the members. `NewRaftNode`
  establishes it (`settled_newRaftNode`).
- `ElectionEffect`: what a step of a process can do to elections. A step is
  calm, starts an election, serves a vote request, counts a vote, or restarts
  the process.
-/

namespace DistributedMQ.Raft

namespace RaftNode

/-- The membership maps are the same. -/
structure SameMembership (r r' : RaftNode) : Prop where
  peers : r'.peers = r.peers
  currentConfig : r'.currentConfig = r.currentConfig
  newConfig : r'.newConfig = r.newConfig
  configState : r'.configState = r.configState

instance (r r' : RaftNode) : Decidable (SameMembership r r') :=
  decidable_of_iff
    (r'.peers.entries = r.peers.entries ∧ r'.currentConfig.entries = r.currentConfig.entries ∧
      r'.newConfig.map AList.entries = r.newConfig.map AList.entries ∧
      r'.configState = r.configState)
    ⟨fun ⟨h₁, h₂, h₃, h₄⟩ =>
      ⟨AList.ext h₁, AList.ext h₂,
        Option.map_injective (fun _ _ h => AList.ext h) h₃, h₄⟩,
      fun ⟨h₁, h₂, h₃, h₄⟩ => ⟨by rw [h₁], by rw [h₂], by rw [h₃], h₄⟩⟩

/-- The node sees exactly the members, all of them voting, and is one of them. -/
structure Settled (members : List String) (r : RaftNode) : Prop where
  self_mem : r.selfAddr ∈ members
  mem_peers : ∀ a, a ∈ r.peers.keys ↔ a ∈ members ∧ a ≠ r.selfAddr
  voting : ∀ p ∈ r.peers.entries, p.2.learner = false
  stable : r.configState = .stable

theorem Settled.of_same {members : List String} {r r' : RaftNode} (h : Settled members r)
    (hsame : SameMembership r r') (hself : r'.selfAddr = r.selfAddr) : Settled members r' where
  self_mem := hself ▸ h.self_mem
  mem_peers a := by rw [hsame.peers, hself]; exact h.mem_peers a
  voting := by rw [hsame.peers]; exact h.voting
  stable := hsame.configState.trans h.stable

theorem Settled.nonLearnerPeers_eq {members : List String} {r : RaftNode}
    (h : Settled members r) : r.nonLearnerPeers = r.peers.keys := by
  unfold nonLearnerPeers
  rw [List.filter_eq_self.mpr fun p hp => by rw [h.voting p hp]; rfl]
  rfl

/-- The peers and the node itself are the members. -/
theorem Settled.length_peers {members : List String} (hnd : members.Nodup) {r : RaftNode}
    (h : Settled members r) : r.peers.keys.length + 1 = members.length := by
  have hself : r.selfAddr ∉ r.peers.keys := fun hmem => ((h.mem_peers _).mp hmem).2 rfl
  have hperm : (r.selfAddr :: r.peers.keys).Perm members := by
    refine (List.perm_ext_iff_of_nodup (List.nodup_cons.mpr ⟨hself, r.peers.keys_nodup⟩) hnd).mpr
      fun a => ?_
    rw [List.mem_cons, h.mem_peers]
    constructor
    · rintro (rfl | ⟨ha, -⟩)
      · exact h.self_mem
      · exact ha
    · intro ha
      by_cases heq : a = r.selfAddr
      · exact Or.inl heq
      · exact Or.inr ⟨ha, heq⟩
  rw [← hperm.length_eq, List.length_cons]

end RaftNode

open RaftNode

/-! ## The node `NewRaftNode` builds -/

theorem addPeers_shape (self : String) (l : List String) :
    ∀ r : RaftNode, ∃ ps cc isr, addPeers self r l =
      { r with peers := ps, currentConfig := cc, isr := isr } := by
  induction l with
  | nil => exact fun r => ⟨r.peers, r.currentConfig, r.isr, rfl⟩
  | cons a l ih =>
    intro r
    unfold addPeers
    split
    · exact ih r
    · obtain ⟨ps, cc, isr, h⟩ := ih
        { r with
          peers := r.peers.insert a { addr := a }
          currentConfig := r.currentConfig.insert a true
          isr := r.isr.insert a true }
      exact ⟨ps, cc, isr, h⟩

theorem mem_peers_addPeers (self : String) (l : List String) :
    ∀ (r : RaftNode) (a : String),
      a ∈ (addPeers self r l).peers.keys ↔ a ∈ r.peers.keys ∨ (a ∈ l ∧ a ≠ self) := by
  induction l with
  | nil => intro r a; simp [addPeers]
  | cons b l ih =>
    intro r a
    unfold addPeers
    by_cases hb : b = self
    -- the node skips itself
    · rw [if_pos hb, ih]
      constructor
      · rintro (h | ⟨h, hne⟩)
        · exact Or.inl h
        · exact Or.inr ⟨List.mem_cons_of_mem _ h, hne⟩
      · rintro (h | ⟨h, hne⟩)
        · exact Or.inl h
        · rcases List.mem_cons.mp h with rfl | h
          · exact absurd hb hne
          · exact Or.inr ⟨h, hne⟩
    · rw [if_neg hb, ih]
      have hins : a ∈ (r.peers.insert b { addr := b }).keys ↔ a = b ∨ a ∈ r.peers.keys := by
        rw [← AList.mem_keys, AList.mem_insert, AList.mem_keys]
      rw [hins]
      constructor
      · rintro ((rfl | h) | ⟨h, hne⟩)
        · exact Or.inr ⟨List.mem_cons_self, hb⟩
        · exact Or.inl h
        · exact Or.inr ⟨List.mem_cons_of_mem _ h, hne⟩
      · rintro (h | ⟨h, hne⟩)
        · exact Or.inl (Or.inr h)
        · rcases List.mem_cons.mp h with rfl | h
          · exact Or.inl (Or.inl rfl)
          · exact Or.inr ⟨h, hne⟩

theorem voting_addPeers (self : String) (l : List String) :
    ∀ r : RaftNode, (∀ p ∈ r.peers.entries, p.2.learner = false) →
      ∀ p ∈ (addPeers self r l).peers.entries, p.2.learner = false := by
  induction l with
  | nil => exact fun r h => h
  | cons b l ih =>
    intro r h
    unfold addPeers
    split
    · exact ih r h
    · refine ih _ fun p hp => ?_
      have hp' : p ∈ (r.peers.insert b { addr := b }).entries := hp
      rw [AList.entries_insert] at hp'
      rcases List.mem_cons.mp hp' with rfl | hp'
      · rfl
      · exact h p ((List.kerase_sublist _ _).subset hp')

variable [GrowthPolicy]

/-- `loadState` replaces what the files hold. -/
theorem loadState_shape (r : RaftNode) :
    ∃ t v lg ci la cs cc nc pi, r.loadState =
      { r with
        currentTerm := t, votedFor := v, log := lg, commitIndex := ci, lastApplied := la,
        configState := cs, currentConfig := cc, newConfig := nc, persistedIndex := pi } := by
  unfold loadState
  split
  · exact ⟨r.currentTerm, r.votedFor, r.log, r.commitIndex, r.lastApplied, r.configState,
      r.currentConfig, r.newConfig, r.persistedIndex, rfl⟩
  split
  · exact ⟨r.currentTerm, r.votedFor, r.log, r.commitIndex, r.lastApplied, r.configState,
      r.currentConfig, r.newConfig, r.persistedIndex, rfl⟩
  · unfold loadLogEntries
    split
    · exact ⟨_, _, r.log, _, _, _, _, _, _, rfl⟩
    · split
      · exact ⟨_, _, r.log, _, _, _, _, _, _, rfl⟩
      · exact ⟨_, _, _, _, _, _, _, _, _, rfl⟩

section newRaftNode

variable (self : String) (peers : List String) (dir : String) (disk : Disk)

/-- What a started node has from its arguments, whatever is on disk. -/
theorem newRaftNode_shape :
    ∃ t v lg ci la cs cc nc pi isr, newRaftNode self peers dir disk =
      { blankNode self dir disk with
        peers := (addPeers self (blankNode self dir disk) peers).peers
        isr := isr
        currentTerm := t, votedFor := v, log := lg, commitIndex := ci, lastApplied := la,
        configState := cs, currentConfig := cc, newConfig := nc, persistedIndex := pi } := by
  obtain ⟨ps, cc, isr, h⟩ := addPeers_shape self peers (blankNode self dir disk)
  obtain ⟨t, v, lg, ci, la, cs, cc', nc, pi, h'⟩ :=
    loadState_shape (addPeers self (blankNode self dir disk) peers)
  refine ⟨t, v, lg, ci, la, cs, cc', nc, pi, isr, ?_⟩
  unfold newRaftNode
  rw [h', h]

@[simp] theorem newRaftNode_selfAddr : (newRaftNode self peers dir disk).selfAddr = self := by
  obtain ⟨t, v, lg, ci, la, cs, cc, nc, pi, isr, h⟩ := newRaftNode_shape self peers dir disk
  rw [h]
  rfl

@[simp] theorem newRaftNode_dataDir : (newRaftNode self peers dir disk).dataDir = dir := by
  obtain ⟨t, v, lg, ci, la, cs, cc, nc, pi, isr, h⟩ := newRaftNode_shape self peers dir disk
  rw [h]
  rfl

@[simp] theorem newRaftNode_disk : (newRaftNode self peers dir disk).disk = disk := by
  obtain ⟨t, v, lg, ci, la, cs, cc, nc, pi, isr, h⟩ := newRaftNode_shape self peers dir disk
  rw [h]
  rfl

@[simp] theorem newRaftNode_state : (newRaftNode self peers dir disk).state = .follower := by
  obtain ⟨t, v, lg, ci, la, cs, cc, nc, pi, isr, h⟩ := newRaftNode_shape self peers dir disk
  rw [h]
  rfl

@[simp] theorem newRaftNode_matchIndex : (newRaftNode self peers dir disk).matchIndex = ∅ := by
  obtain ⟨t, v, lg, ci, la, cs, cc, nc, pi, isr, h⟩ := newRaftNode_shape self peers dir disk
  rw [h]
  rfl

@[simp] theorem newRaftNode_pendingCommit : (newRaftNode self peers dir disk).pendingCommit = ∅ := by
  obtain ⟨t, v, lg, ci, la, cs, cc, nc, pi, isr, h⟩ := newRaftNode_shape self peers dir disk
  rw [h]
  rfl

@[simp] theorem newRaftNode_chansClosed : (newRaftNode self peers dir disk).chansClosed = [] := by
  obtain ⟨t, v, lg, ci, la, cs, cc, nc, pi, isr, h⟩ := newRaftNode_shape self peers dir disk
  rw [h]
  rfl

@[simp] theorem newRaftNode_applyCh : (newRaftNode self peers dir disk).applyCh = some [] := by
  obtain ⟨t, v, lg, ci, la, cs, cc, nc, pi, isr, h⟩ := newRaftNode_shape self peers dir disk
  rw [h]
  rfl

theorem newRaftNode_peers : (newRaftNode self peers dir disk).peers =
    (addPeers self (blankNode self dir disk) peers).peers := by
  obtain ⟨t, v, lg, ci, la, cs, cc, nc, pi, isr, h⟩ := newRaftNode_shape self peers dir disk
  rw [h]

/-- The peers are those of the list, without the node itself. -/
theorem mem_peers_newRaftNode (a : String) :
    a ∈ (newRaftNode self peers dir disk).peers.keys ↔ a ∈ peers ∧ a ≠ self := by
  rw [newRaftNode_peers, mem_peers_addPeers]
  simp [blankNode]

end newRaftNode

theorem durable_newRaftNode {self : String} {peers : List String} {dir : String} {disk : Disk}
    (hdir : dir ≠ "") : Durable (newRaftNode self peers dir disk) := by
  obtain ⟨ps, cc, isr, h⟩ := addPeers_shape self peers (blankNode self dir disk)
  unfold newRaftNode Durable savedVote
  rw [h]
  unfold loadState
  simp only [blankNode, hdir, if_false]
  cases hst : disk.stateFile with
  | none => simp [hst]
  | some st =>
    simp only [loadLogEntries]
    split
    · simp [hst]
    · split <;> simp [hst]

/-- Every log starts with the sentinel. -/
theorem newRaftNode_log (self : String) (peers : List String) (dir : String) (disk : Disk) :
    ∃ es, (newRaftNode self peers dir disk).log.elems = sentinel :: es := by
  obtain ⟨ps, cc, isr, h⟩ := addPeers_shape self peers (blankNode self dir disk)
  unfold newRaftNode
  rw [h]
  unfold loadState
  split
  · exact ⟨[], rfl⟩
  split
  · exact ⟨[], rfl⟩
  · unfold loadLogEntries
    dsimp only
    split
    · exact ⟨[], rfl⟩
    · split
      · exact ⟨[], rfl⟩
      · exact ⟨_, GoSlice.elems_appendAll _ _⟩

/-- Without files a node is what its peer list makes it. -/
theorem newRaftNode_emptyDisk (self : String) (peers : List String) (dir : String) :
    newRaftNode self peers dir {} = addPeers self (blankNode self dir {}) peers := by
  obtain ⟨ps, cc, isr, h⟩ := addPeers_shape self peers (blankNode self dir {})
  rw [newRaftNode, h, loadState]
  split
  · rfl
  · rfl

/-- A node on a saved disk has the saved term, log and configuration. -/
theorem newRaftNode_savedDisk (self : String) (members : List String) {dir : String}
    (hdir : dir ≠ "") (term commitIndex : ℕ) (entries : List LogEntry) :
    (newRaftNode self members dir
        (Cluster.savedDisk members term commitIndex entries)).log.elems = sentinel :: entries ∧
      (newRaftNode self members dir
        (Cluster.savedDisk members term commitIndex entries)).currentTerm = term ∧
      (newRaftNode self members dir
        (Cluster.savedDisk members term commitIndex entries)).configState = .stable ∧
      (newRaftNode self members dir
        (Cluster.savedDisk members term commitIndex entries)).currentConfig = configOf members := by
  obtain ⟨ps, cc, isr, h⟩ := addPeers_shape self members
    (blankNode self dir (Cluster.savedDisk members term commitIndex entries))
  unfold newRaftNode
  rw [h]
  unfold loadState
  simp only [blankNode, Cluster.savedDisk, loadLogEntries, hdir, if_false]
  by_cases hnil : entries = []
  · rw [if_pos hnil, hnil]
    exact ⟨rfl, rfl, rfl, rfl⟩
  · rw [if_neg hnil]
    exact ⟨GoSlice.elems_appendAll _ _, rfl, rfl, rfl⟩

omit [GrowthPolicy] in
theorem mem_keys_configOf (l : List String) (a : String) : a ∈ (configOf l).keys ↔ a ∈ l := by
  have hfold : ∀ (l : List String) (m : GoMap String Bool),
      a ∈ (l.foldl (fun m a => m.insert a true) m).keys ↔ a ∈ m.keys ∨ a ∈ l := by
    intro l
    induction l with
    | nil => simp
    | cons b l ih =>
      intro m
      rw [List.foldl_cons, ih, ← AList.mem_keys, AList.mem_insert, AList.mem_keys, List.mem_cons]
      tauto
  unfold configOf
  rw [hfold]
  simp

/-- The peer list of a start may name the members in any order, with or without
the node itself. -/
theorem settled_of_peers {members peers : List String} {self : String} {dir : String} {disk : Disk}
    (hself : self ∈ members) (hpeers : ∀ a, a ≠ self → (a ∈ peers ↔ a ∈ members))
    (hstable : (newRaftNode self peers dir disk).configState = .stable) :
    Settled members (newRaftNode self peers dir disk) := by
  refine ⟨?_, fun a => ?_, ?_, hstable⟩
  · rwa [newRaftNode_selfAddr]
  · rw [mem_peers_newRaftNode, newRaftNode_selfAddr]
    exact and_congr_left fun hne => hpeers a hne
  · rw [newRaftNode_peers]
    exact voting_addPeers self peers _ (by simp [blankNode])

/-! ## What a step can do to elections -/

/-- The message carries no vote request and no granted vote. -/
def Message.NoBallot : Message → Prop
  | .voteRequest _ _ _ _ => False
  | .voteReply _ _ _ reply => reply.voteGranted = false
  | _ => True

/-- The event makes the process run `startElection`. -/
def Event.campaigns (p : Proc) : Event → Bool
  | .electionTimeout => decide (p.node.state ≠ .leader)
  | .electionOver id =>
    decide (p.node.state = .candidate) &&
      p.elections.any fun e => decide (e.id = id ∧ e.term = p.node.currentTerm)
  | _ => false

/-- The event restarts the process. -/
def Event.Restarts : Event → Prop
  | .restart => True
  | .dieServing _ => True
  | _ => False

instance (ev : Event) : Decidable ev.Restarts := by
  cases ev <;> unfold Event.Restarts <;> infer_instance

/-- The five things a step of a process can be for elections. -/
inductive ElectionEffect (p : Proc) (ev : Event) : Proc → List Message → Prop where
  /-- No election step: the node keeps its vote or steps down. -/
  | calm {p' : Proc} {out : List Message} (hnode : Calm p.node p'.node)
      (hel : p'.elections ⊆ p.elections) (hid : p.nextId ≤ p'.nextId)
      (hlist : p'.peerList = p.peerList) (hout : ∀ m ∈ out, m.NoBallot) :
      ElectionEffect p ev p' out
  /-- The node starts an election. -/
  | campaign (es : List Election) (hsub : es ⊆ p.elections) (hlead : p.node.state ≠ .leader)
      (hev : ev.campaigns p = true) :
      ElectionEffect p ev { p with elections := es }.startElection.1
        { p with elections := es }.startElection.2
  /-- The node serves a vote request. -/
  | ballot (caller : String) (id : ℕ) (args : RequestVoteArgs)
      (hev : ev = .requestVote caller id args) :
      ElectionEffect p ev { p with node := (p.node.requestVote args).1 }
        [.voteReply caller id p.node.selfAddr (p.node.requestVote args).2]
  /-- A vote goroutine handles its reply. -/
  | tally (e : Election) (peer : String) (reply : RequestVoteReply) (he : e ∈ p.elections)
      (hpeer : peer ∈ e.waiting) (hev : ev = .voteReply e.id peer reply) :
      ElectionEffect p ev (p.onVoteReply e peer reply) []
  /-- The process is restarted, possibly after it has stepped down. -/
  | reboot (r : RaftNode) (hnode : Calm p.node r) (hev : ev.Restarts) :
      ElectionEffect p ev { p with node := r }.restart []

namespace Proc

omit [GrowthPolicy] in
theorem find?_spec {es : List Election} {id : ℕ} {e : Election}
    (h : es.find? (fun e => e.id = id) = some e) : e ∈ es ∧ e.id = id :=
  ⟨List.mem_of_find?_eq_some h, by simpa using List.find?_some h⟩

theorem onSendAppendEntries_effect (p : Proc) (ev : Event) (peer : String) :
    ElectionEffect p ev (p.onSendAppendEntries peer) [] := by
  have hcalm := calm_sendAppendEntries p.node peer p.nextId
  unfold onSendAppendEntries
  cases hs : p.node.sendAppendEntries peer p.nextId with
  | mk r o =>
    rw [hs] at hcalm
    cases o with
    | idle => exact .calm hcalm (fun _ h => h) le_rfl rfl (by simp)
    | snapshot => exact .calm hcalm (fun _ h => h) le_rfl rfl (by simp)
    | request c => exact .calm hcalm (fun _ h => h) (Nat.le_succ _) rfl (by simp)
    | panic => exact .calm hcalm (fun _ h => h) le_rfl rfl (by simp)

/-- A step that keeps the goroutines of elections is calm if its node is. -/
theorem calmStep {p p' : Proc} {ev : Event} {out : List Message} (hnode : Calm p.node p'.node)
    (hel : p'.elections = p.elections) (hid : p'.nextId = p.nextId)
    (hlist : p'.peerList = p.peerList) (hout : ∀ m ∈ out, m.NoBallot) :
    ElectionEffect p ev p' out :=
  .calm hnode (fun _ h => hel ▸ h) (le_of_eq hid.symm) hlist hout

/-- A step campaigns, votes, counts a vote, restarts the process, or leaves elections alone. -/
theorem step_electionEffect {p p' : Proc} {ev : Event} {out : List Message}
    (h : p.step ev = some (p', out)) : ElectionEffect p ev p' out := by
  cases step_cases h with
  | leaderTimeout hlead => exact calmStep (.refl _) rfl rfl rfl (by simp)
  | electionTimeout hlead =>
    exact .campaign p.elections (fun _ h => h) hlead (decide_eq_true hlead)
  | electionOver id e hfind hdone hover =>
    exact .calm (.refl _) (List.filter_subset_self _) le_rfl rfl (by simp)
  | electionRetry id e hfind hdone hcand =>
    obtain ⟨he, hid⟩ := find?_spec hfind
    refine .campaign (p.elections.filter fun e' => e'.id ≠ id) (List.filter_subset_self _) ?_ ?_
    · rw [hcand.1]
      decide
    · exact Bool.and_eq_true_iff.mpr ⟨decide_eq_true hcand.1,
        List.any_eq_true.mpr ⟨e, he, decide_eq_true ⟨hid, hcand.2.symm⟩⟩⟩
  | requestVote caller id args => exact .ballot caller id args rfl
  | voteFailed id peer => exact calmStep (.refl _) rfl rfl rfl (by simp [Message.NoBallot])
  | voteReply id peer reply e hfind hpeer =>
    obtain ⟨he, hid⟩ := find?_spec hfind
    exact .tally e peer reply he hpeer (by rw [hid])
  | sendAppendEntries peer hpeer => exact onSendAppendEntries_effect p _ peer
  | marshal id c hfind hsent =>
    exact calmStep (.refl _) rfl rfl rfl (by simp [Message.NoBallot])
  | appendEntries caller id args =>
    exact calmStep (calm_appendEntries _ _) rfl rfl rfl (by simp [Message.NoBallot])
  | appendFailed id => exact calmStep (.refl _) rfl rfl rfl (by simp [Message.NoBallot])
  | appendReply id reply c hfind =>
    exact calmStep (calm_handleAppendReply _ _ _) rfl rfl rfl (by simp)
  | sendSnapshot peer args hdue hargs =>
    exact .calm (.refl _) (fun _ h => h) (Nat.le_succ _) rfl (by simp [Message.NoBallot])
  | noSnapshot peer hdue hnone => exact calmStep (.refl _) rfl rfl rfl (by simp)
  | installSnapshot caller id args =>
    exact calmStep (calm_installSnapshot _ _) rfl rfl rfl (by simp [Message.NoBallot])
  | snapshotFailed id => exact calmStep (.refl _) rfl rfl rfl (by simp [Message.NoBallot])
  | snapshotReply id reply c hfind =>
    exact calmStep (calm_handleSnapshotReply _ _ _) rfl rfl rfl (by simp)
  | submitCommand topic partition data =>
    exact calmStep (calm_submitCommand _ _ _ _) rfl rfl rfl (by simp)
  | applyCommittedEntries => exact calmStep (calm_applyLoop _ _) rfl rfl rfl (by simp)
  | checkISR => exact calmStep (calm_checkISR _) rfl rfl rfl (by simp)
  | addNode addr hok => exact calmStep (.refl _) rfl rfl rfl (by simp)
  | removeNode addr hok => exact calmStep (.refl _) rfl rfl rfl (by simp)
  | changeConfig addr add hmem =>
    exact calmStep (calm_changeConfig _ _ _) rfl rfl rfl (by simp)
  | appendStableConfig => exact calmStep (calm_appendStableConfig _) rfl rfl rfl (by simp)
  | restart => exact .reboot p.node (.refl _) trivial
  | dieServing request term hterm => exact .reboot _ (calm_observeTerm _ _) trivial

end Proc

/-! ## Guards -/

namespace Cluster

/-- No membership changes in the step. -/
def Static (s : Cluster) (_ : String × Event) (s' : Cluster) : Prop :=
  ∀ i ∈ s.members, SameMembership (s.node i) (s'.node i)

instance (s : Cluster) (l : String × Event) (s' : Cluster) : Decidable (s.Static l s') :=
  inferInstanceAs (Decidable (∀ i ∈ s.members, SameMembership (s.node i) (s'.node i)))

/-- The step does not start an election at the largest `uint64` term. -/
def NoWrap (s : Cluster) (l : String × Event) : Prop :=
  l.2.campaigns (s.procs l.1) = true → (s.node l.1).currentTerm + 1 < size64

instance (s : Cluster) (l : String × Event) : Decidable (s.NoWrap l) :=
  inferInstanceAs (Decidable (l.2.campaigns (s.procs l.1) = true →
    (s.node l.1).currentTerm + 1 < size64))

end Cluster

end DistributedMQ.Raft
