import DistributedMQ.Raft.CommitQuorum
import DistributedMQ.Raft.ConfigChange
import DistributedMQ.Raft.Tally
import Mathlib.Data.Finset.Card

/-!
# Votes and acknowledgements under membership changes (`raft.go` lines 183–273, 433–489, 661–709)

An election counts the entries of `r.peers` that are not learners, a commit
counts `r.currentConfig`. A node that joins becomes a learner of every node that
does not know it yet, and nothing ever makes it more, so the two sets drift apart
with every `AddNode`.

- `Elects r V`: some run of `startElection` in which only nodes of `V` grant
  their vote makes `r` Leader. `Commits r W`: some state of the leader `r` in
  which only nodes of `W` have acknowledged an index commits that index.
- `Group`: the nodes of a cluster; a step is one `AddNode` or `RemoveNode` with
  both of its entries applied on every node. Afterwards all of them have the same
  configuration and know the same peers (`Synced`), learners or not.
- `quorums_meet_iff`: in every group reached, the votes that elect a member and
  the acknowledgements that commit on a leader always meet if and only if the
  member's voters are enough of the configuration.
- `two_added_nodes_split`: after two nodes have joined three, `{a, b}` elects and
  `{c, d, e}` commits.
-/

namespace DistributedMQ.Raft

open Machine

namespace RaftNode

/-! ## What votes and acknowledgements do -/

/-- `startElection` and the replies to it. -/
def campaignWith (r : RaftNode) (replies : List (String × RequestVoteReply)) : RaftNode :=
  match r.startElection 0 with
  | (r', none) => r'
  | (r', some e) => tally r' e replies

/-- The votes of `V`, the candidate's own among them, make the node Leader. -/
def Elects (r : RaftNode) (V : Finset String) : Prop :=
  r.selfAddr ∈ V ∧ ∃ r₀ replies, SameMembership r r₀ ∧ r₀.selfAddr = r.selfAddr ∧
    (∀ x ∈ replies, x.2.voteGranted = true → x.1 ∈ V) ∧
    (r₀.campaignWith replies).state = .leader

/-- The acknowledgements of `W`, the leader's own among them, let
`updateCommitIndex` commit an entry. -/
def Commits (r : RaftNode) (W : Finset String) : Prop :=
  r.selfAddr ∈ W ∧ ∃ r₀ n, SameMembership r r₀ ∧ r₀.selfAddr = r.selfAddr ∧
    r₀.state = .leader ∧
    (∀ a m, r₀.matchIndex.lookup a = some m → n ≤ m → a ∈ r₀.peers.keys ∧ a ∈ W) ∧
    r₀.commitIndex < n ∧ n ≤ r₀.updateCommitIndex.commitIndex

/-! ## Elections -/

/-- What the goroutines of a stable election have counted: `G` are the peers
whose vote is in. -/
structure Tallied (peers : List String) (V : Finset String) (r : RaftNode) (e : Election)
    (G : List String) : Prop where
  stable : e.configState = .stable
  voters : e.nonLearnerPeers = peers
  votes : e.votes = G.length + 1
  nodup : (G ++ e.waiting).Nodup
  subset : G ++ e.waiting ⊆ peers
  granted : ∀ a ∈ G, a ∈ V
  leader : r.state = .leader → G ≠ [] ∧ (peers.length + 1) / 2 ≤ G.length

section elections

variable {peers : List String} {V : Finset String} {r : RaftNode} {e : Election}
  {G : List String}

/-- A goroutine is done with its reply. -/
theorem Tallied.erase (h : Tallied peers V r e G) (peer : String) {r' : RaftNode}
    (hlead : r'.state = .leader → r.state = .leader) :
    Tallied peers V r' { e with waiting := e.waiting.erase peer } G where
  stable := h.stable
  voters := h.voters
  votes := h.votes
  nodup := h.nodup.sublist ((List.Sublist.refl G).append List.erase_sublist)
  subset a ha := by
    refine h.subset ?_
    rcases List.mem_append.mp ha with ha | ha
    · exact List.mem_append_left _ ha
    · exact List.mem_append_right _ (List.mem_of_mem_erase ha)
  granted := h.granted
  leader hl := h.leader (hlead hl)

/-- A goroutine counts the vote of its peer. -/
theorem Tallied.count (h : Tallied peers V r e G) {peer : String} (hpeer : peer ∈ e.waiting)
    (hV : peer ∈ V) {r' : RaftNode}
    (hlead : r'.state = .leader → (peers.length + 1) / 2 ≤ G.length + 1) :
    Tallied peers V r' (({ e with waiting := e.waiting.erase peer } : Election).count r peer)
      (peer :: G) where
  stable := h.stable
  voters := h.voters
  votes := by
    show e.votes + 1 = _
    rw [h.votes]
    rfl
  nodup := by
    -- the voter moves from those the goroutines wait for to those that are counted
    have hperm : (G ++ e.waiting).Perm (peer :: G ++ e.waiting.erase peer) :=
      ((List.perm_cons_erase hpeer).append_left G).trans List.perm_middle
    exact hperm.nodup h.nodup
  subset a ha := by
    refine h.subset ?_
    rcases List.mem_append.mp ha with ha | ha
    · rcases List.mem_cons.mp ha with rfl | ha
      · exact List.mem_append_right _ hpeer
      · exact List.mem_append_left _ ha
    · exact List.mem_append_right _ (List.mem_of_mem_erase ha)
  granted a ha := by
    rcases List.mem_cons.mp ha with rfl | ha
    · exact hV
    · exact h.granted a ha
  leader hl := ⟨nofun, hlead hl⟩

theorem Tallied.handleVoteReply (h : Tallied peers V r e G) {peer : String}
    {reply : RequestVoteReply} (hpeer : peer ∈ e.waiting)
    (hV : reply.voteGranted = true → peer ∈ V) :
    ∃ G', Tallied peers V (r.handleVoteReply e peer reply).1
      (r.handleVoteReply e peer reply).2 G' := by
  rw [RaftNode.handleVoteReply]
  dsimp only
  split
  · refine ⟨G, h.erase peer fun hl => ?_⟩
    rw [becomeFollower, saveState_state] at hl
    cases hl
  split
  case isFalse => exact ⟨G, h.erase peer id⟩
  case isTrue hcount =>
  split
  · rename_i hwon
    refine ⟨peer :: G, h.count hpeer (hV hcount.2.2) fun _ => ?_⟩
    have hstable : (({ e with waiting := e.waiting.erase peer } : Election).count r peer).configState
        = .stable := h.stable
    rw [Election.won, hstable] at hwon
    have hvotes : e.votes + 1 > (e.nonLearnerPeers.length + 1) / 2 := of_decide_eq_true hwon
    rw [h.votes, h.voters] at hvotes
    omega
  · refine ⟨peer :: G, h.count hpeer (hV hcount.2.2) fun hl => ?_⟩
    rw [hcount.1] at hl
    cases hl

theorem Tallied.tally : ∀ (replies : List (String × RequestVoteReply)) {r : RaftNode}
    {e : Election} {G : List String}, Tallied peers V r e G →
      (∀ x ∈ replies, x.2.voteGranted = true → x.1 ∈ V) →
      (tally r e replies).state = .leader →
      ∃ G' : List String, G'.Nodup ∧ G' ⊆ peers ∧ (∀ a ∈ G', a ∈ V) ∧ G' ≠ [] ∧
        (peers.length + 1) / 2 ≤ G'.length
  | [], r, e, G, h, _, hlead =>
    ⟨G, (List.nodup_append.mp h.nodup).1, fun _ ha => h.subset (List.mem_append_left _ ha),
      h.granted, h.leader hlead⟩
  | (peer, reply) :: replies, r, e, G, h, hV, hlead => by
    have hrest := fun x hx => hV x (List.mem_cons_of_mem _ hx)
    rw [RaftNode.tally] at hlead
    split at hlead
    · rename_i hpeer
      obtain ⟨G', hG'⟩ := h.handleVoteReply hpeer (hV (peer, reply) List.mem_cons_self)
      exact Tallied.tally replies hG' hrest hlead
    · exact Tallied.tally replies h hrest hlead

/-- **What a win rests on**: votes of half of the voting peers, rounded up, and
at least one if there are peers at all. -/
theorem Elects.voters (hstable : r.configState = .stable) (h : r.Elects V) :
    (r.peers.keys = [] ∨ r.nonLearnerPeers ≠ []) ∧
      ∃ G : List String, G.Nodup ∧ G ⊆ r.nonLearnerPeers ∧ (∀ a ∈ G, a ∈ V) ∧
        (r.nonLearnerPeers.length + 1) / 2 ≤ G.length := by
  obtain ⟨-, r₀, replies, hsame, -, hV, hlead⟩ := h
  have hvoters : r₀.nonLearnerPeers = r.nonLearnerPeers := by
    rw [nonLearnerPeers, nonLearnerPeers, hsame.peers]
  rw [campaignWith, startElection, hsame.peers] at hlead
  by_cases hpeers : r.peers.keys = []
  · have hnone : r.nonLearnerPeers = [] :=
      List.eq_nil_of_subset_nil (hpeers ▸ r.nonLearnerPeers_subset)
    refine ⟨Or.inl hpeers, [], List.nodup_nil, List.nil_subset _, ?_, ?_⟩
    · exact fun _ ha => absurd ha List.not_mem_nil
    · rw [hnone]
      exact Nat.le_refl 0
  · rw [if_neg hpeers] at hlead
    have hstart : Tallied r.nonLearnerPeers V r₀.campaign.saveState (r₀.campaign.newElection 0)
        [] := by
      refine ⟨hsame.configState.trans hstable, hvoters, rfl, ?_, ?_, ?_, fun hl => ?_⟩
      · show (r₀.nonLearnerPeers).Nodup
        exact r₀.nodup_nonLearnerPeers
      · show r₀.nonLearnerPeers ⊆ _
        rw [hvoters]
        exact fun _ ha => ha
      · exact fun _ ha => absurd ha List.not_mem_nil
      · rw [saveState_state] at hl
        cases hl
    obtain ⟨G, hnodup, hsub, hgranted, hne, hle⟩ := hstart.tally replies hV hlead
    refine ⟨Or.inr fun hnil => hne ?_, G, hnodup, hsub, hgranted, hle⟩
    exact List.eq_nil_of_subset_nil (hnil ▸ hsub)

/-- Enough votes make the candidate Leader. -/
theorem tally_grants {L : List String} (hcand : r.state = .candidate)
    (hterm : r.currentTerm = e.term) (hstable : e.configState = .stable) (hne : L ≠ [])
    (hnodup : L.Nodup) (hsub : L ⊆ e.waiting)
    (hlen : (e.nonLearnerPeers.length + 1) / 2 < e.votes + L.length) :
    (tally r e (L.map grant)).state = .leader := by
  refine (tally_leader_iff hcand hterm ?_ ?_ ?_).mpr ?_
  · intro x hx
    obtain ⟨a, -, rfl⟩ := List.mem_map.mp hx
    exact Nat.zero_le _
  · exact (map_fst_grant L).symm ▸ hnodup
  · exact (map_fst_grant L).symm ▸ hsub
  · rw [granted_map_grant, Election.Passes, hstable]
    exact ⟨hne, hlen⟩

/-- Votes of half of the voting peers, rounded up, are enough. -/
theorem elects_of_voters {L : List String} (hstable : r.configState = .stable)
    (hsome : r.peers.keys = [] ∨ r.nonLearnerPeers ≠ []) (hnodup : L.Nodup)
    (hsub : L ⊆ r.nonLearnerPeers) (hlen : (r.nonLearnerPeers.length + 1) / 2 ≤ L.length) :
    r.Elects (insert r.selfAddr L.toFinset) := by
  refine ⟨Finset.mem_insert_self _ _, r, L.map grant, ⟨rfl, rfl, rfl, rfl⟩, rfl, ?_, ?_⟩
  · intro x hx _
    obtain ⟨a, ha, rfl⟩ := List.mem_map.mp hx
    exact Finset.mem_insert_of_mem (List.mem_toFinset.mpr ha)
  · rw [campaignWith, startElection]
    by_cases hpeers : r.peers.keys = []
    · rw [if_pos hpeers]
      exact saveState_state _
    · rw [if_neg hpeers]
      have hvoters : r.nonLearnerPeers ≠ [] := hsome.resolve_left hpeers
      refine tally_grants (saveState_state _) ?_ hstable ?_ hnodup hsub ?_
      · exact saveState_currentTerm _
      · rintro rfl
        have hpos := List.length_pos_of_ne_nil hvoters
        rw [List.length_nil] at hlen
        omega
      · show (r.nonLearnerPeers.length + 1) / 2 < 1 + L.length
        omega

end elections

/-! ## Commits -/

section commits

variable {r : RaftNode} {W : Finset String}

/-- **What a commit rests on**: acknowledgements of half of the configuration,
rounded down, from peers. -/
theorem Commits.members (hstable : r.configState = .stable) (h : r.Commits W) :
    ∃ A : List String, A.Nodup ∧ A ⊆ r.peers.keys ∧ A ⊆ r.currentConfig.keys ∧
      (∀ a ∈ A, a ∈ W) ∧ r.currentConfig.len / 2 ≤ A.length := by
  obtain ⟨-, r₀, n, hsame, -, -, hacks, hlt, hle⟩ := h
  obtain ⟨-, -, hquorum⟩ := commitLoop_spec _ r₀ n hlt hle
  rw [commitQuorum, hsame.configState, hstable, hsame.currentConfig] at hquorum
  have hcount : r.currentConfig.len / 2 + 1 ≤
      r₀.ackCount (fun p => r.currentConfig.get p false) n := of_decide_eq_true hquorum
  rw [ackCount] at hcount
  -- the keys of `matchIndex` that are counted
  have hcounted : ∀ a ∈ (r₀.matchIndex.entries.filter fun p =>
      decide (n ≤ p.2) && r.currentConfig.get p.1 false).map Sigma.fst,
      (a ∈ r₀.peers.keys ∧ a ∈ W) ∧ r.currentConfig.get a false = true := by
    intro a ha
    obtain ⟨⟨q, m⟩, hmem, rfl⟩ := List.mem_map.mp ha
    obtain ⟨hentry, hm⟩ := List.mem_filter.mp hmem
    obtain ⟨hge, hin⟩ := Bool.and_eq_true_iff.mp hm
    exact ⟨hacks q m (AList.mem_lookup_iff.mpr hentry) (of_decide_eq_true hge), hin⟩
  refine ⟨_, r₀.matchIndex.keys_nodup.sublist (List.filter_sublist.map _), fun a ha => ?_,
    fun a ha => GoMap.mem_keys_of_get (hcounted a ha).2, fun a ha => (hcounted a ha).1.2, ?_⟩
  · rw [← hsame.peers]
    exact (hcounted a ha).1.1
  · rw [List.length_map]
    omega

/-- `matchIndex` with `n` acknowledged by the nodes of a list. -/
def acksOf (A : List String) (hA : A.Nodup) (n : ℕ) : GoMap String ℕ where
  entries := A.map fun a => ⟨a, n⟩
  nodupKeys := by
    show ((A.map fun a => (⟨a, n⟩ : (_ : String) × ℕ)).map Sigma.fst).Nodup
    rw [List.map_map]
    exact (List.map_id A).symm ▸ hA

theorem commitIndex_le_commitLoop : ∀ (k : ℕ) (r : RaftNode),
    r.commitIndex ≤ (commitLoop k r).commitIndex := by
  intro k
  induction k with
  | zero => exact fun _ => le_rfl
  | succ k ih =>
    intro r
    rw [commitLoop]
    split
    · obtain ⟨pc, cc, hshape⟩ := r.commitTo_shape (r.commitIndex + 1)
      have hstep : r.commitIndex + 1 = (r.commitTo (r.commitIndex + 1)).commitIndex := by
        rw [hshape]
      have hrest := ih (r.commitTo (r.commitIndex + 1))
      omega
    · exact le_rfl

/-- The leader behind two entries of its term; the first is committed, the
second is acknowledged by the nodes of a list. -/
def awaiting (r : RaftNode) (A : List String) (hA : A.Nodup) : RaftNode :=
  { r with
    state := .leader
    log :=
      { r.log with
        elems := r.log.elems ++
          [{ term := r.currentTerm, index := r.log.len },
            { term := r.currentTerm, index := r.log.len + 1 }] }
    commitIndex := r.log.len
    matchIndex := acksOf A hA (r.log.len + 1) }

/-- Acknowledgements of half of the configuration, rounded down, are enough. -/
theorem commits_of_members {A : List String} (hstable : r.configState = .stable) (hA : A.Nodup)
    (hpeers : A ⊆ r.peers.keys) (hconfig : ∀ a ∈ A, r.currentConfig.get a false = true)
    (hlen : r.currentConfig.len / 2 ≤ A.length) : r.Commits (insert r.selfAddr A.toFinset) := by
  refine ⟨Finset.mem_insert_self _ _, r.awaiting A hA, r.log.len + 1, ⟨rfl, rfl, rfl, rfl⟩, rfl,
    rfl, ?_, Nat.lt_succ_self _, ?_⟩
  · intro a m hm _
    obtain ⟨a', ha', heq⟩ := List.mem_map.mp (AList.mem_lookup_iff.mp hm)
    cases heq
    exact ⟨hpeers ha', Finset.mem_insert_of_mem (List.mem_toFinset.mpr ha')⟩
  · have htwo : (r.awaiting A hA).log.len = r.log.len + 2 := by
      show (r.log.elems ++ [_, _]).length = r.log.elems.length + 2
      rw [List.length_append]
      rfl
    have hterm : (r.awaiting A hA).termAt (r.log.len + 1) = (r.awaiting A hA).currentTerm := by
      simp [termAt, awaiting, GoSlice.len]
    have hcount : (r.awaiting A hA).ackCount (fun p => r.currentConfig.get p false)
        (r.log.len + 1) = 1 + A.length := by
      rw [ackCount]
      show 1 + ((A.map fun a => (⟨a, r.log.len + 1⟩ : (_ : String) × ℕ)).filter _).length = _
      rw [List.filter_eq_self.mpr, List.length_map]
      intro p hp
      obtain ⟨a, ha, rfl⟩ := List.mem_map.mp hp
      rw [hconfig a ha, Bool.and_true]
      exact decide_eq_true le_rfl
    have hquorum : (r.awaiting A hA).commitQuorum (r.log.len + 1) = true := by
      have hstate : (r.awaiting A hA).configState = .stable := hstable
      rw [commitQuorum, hstate]
      refine decide_eq_true ?_
      show r.currentConfig.len / 2 + 1 ≤ (r.awaiting A hA).ackCount
        (fun p => r.currentConfig.get p false) (r.log.len + 1)
      rw [hcount]
      omega
    -- one turn of the loop reaches the index
    have hnext : r.log.len + 1 < (r.awaiting A hA).log.len := by
      rw [htwo]
      exact Nat.lt_succ_self _
    have hstep : commitLoop (r.log.len + 1 + 1) (r.awaiting A hA) =
        commitLoop (r.log.len + 1) ((r.awaiting A hA).commitTo (r.log.len + 1)) :=
      if_pos ⟨hnext, hterm, hquorum⟩
    obtain ⟨pc, cc, hshape⟩ := (r.awaiting A hA).commitTo_shape (r.log.len + 1)
    have hcommitted : ((r.awaiting A hA).commitTo (r.log.len + 1)).commitIndex = r.log.len + 1 := by
      rw [hshape]
    rw [updateCommitIndex, htwo, hstep]
    exact hcommitted.symm.le.trans (commitIndex_le_commitLoop _ _)

end commits

/-! ## What a node knows -/

/-- The node `i` is in a stable configuration of `M` and has the other members as
its peers, learners or not. -/
structure Knows (M : Finset String) (i : String) (r : RaftNode) : Prop where
  name : r.selfAddr = i
  stable : r.configState = .stable
  member : ∀ a, r.currentConfig.get a false = true ↔ a ∈ M
  keys : ∀ a, a ∈ r.currentConfig.keys ↔ a ∈ M
  peers : ∀ a, a ∈ r.peers.keys ↔ a ∈ M ∧ a ≠ i

theorem currentConfig_addPeers_get (self : String) (l : List String) :
    ∀ (r : RaftNode) (a : String), (addPeers self r l).currentConfig.get a false = true ↔
      r.currentConfig.get a false = true ∨ (a ∈ l ∧ a ≠ self) := by
  induction l with
  | nil => intro r a; simp [addPeers]
  | cons b l ih =>
    intro r a
    rw [addPeers]
    by_cases hb : b = self
    · rw [if_pos hb, ih, List.mem_cons]
      have hself : a = b → a ≠ self → False := fun hab hne => hne (hab.trans hb)
      tauto
    · rw [if_neg hb, ih, List.mem_cons]
      show GoMap.get (r.currentConfig.insert b true) a false = true ∨ _ ↔ _
      by_cases hab : a = b
      · subst hab
        rw [GoMap.get_insert_self]
        tauto
      · rw [GoMap.get_insert_ne _ hab]
        tauto

/-- A founder knows the founders. -/
theorem knows_newRaftNode [GrowthPolicy] {i : String} {founders : List String} (dir : String)
    (hi : i ∈ founders) : Knows founders.toFinset i (newRaftNode i founders dir {}) := by
  rw [newRaftNode_emptyDisk]
  obtain ⟨ps, cc, isr, hshape⟩ := addPeers_shape i founders (blankNode i dir {})
  have hmember : ∀ a, a = i ∨ (a ∈ founders ∧ a ≠ i) ↔ a ∈ founders.toFinset := by
    intro a
    rw [List.mem_toFinset]
    by_cases ha : a = i
    · subst ha
      simp [hi]
    · simp [ha]
  refine ⟨?_, ?_, fun a => ?_, fun a => ?_, fun a => ?_⟩
  · rw [hshape]
    rfl
  · rw [hshape]
    rfl
  · rw [currentConfig_addPeers_get, ← hmember]
    have hblank : (blankNode i dir {}).currentConfig.get a false = true ↔ a = i := by
      show GoMap.get ((∅ : GoMap String Bool).insert i true) a false = true ↔ a = i
      by_cases ha : a = i
      · subst ha
        exact ⟨fun _ => rfl, fun _ => GoMap.get_insert_self _ _ _ _⟩
      · rw [GoMap.get_insert_ne _ ha]
        simp [GoMap.get, ha]
    rw [hblank]
  · rw [mem_currentConfig_addPeers, ← hmember]
    have hblank : a ∈ (blankNode i dir {}).currentConfig.keys ↔ a = i := by
      show a ∈ ((∅ : GoMap String Bool).insert i true).keys ↔ _
      rw [GoMap.mem_keys_insert]
      simp
    rw [hblank]
  · rw [mem_peers_addPeers, List.mem_toFinset]
    simp [blankNode]

/-- A node that applies the two entries of a change knows the new configuration,
whatever it knew before. -/
theorem Excludes.knows {i : String} {r : RaftNode} {joint stable : LogEntry}
    {cfg cfg' : ConfigEntry} (h : Excludes i r) (hjoint : joint.type = .jointConsensus)
    (hcfg : joint.config = some cfg) (hstable : stable.type = .confChange)
    (hcfg' : stable.config = some cfg') (hsame : ∀ a, a ∈ cfg'.newPeers ↔ a ∈ cfg.newPeers) :
    Knows cfg.newPeers.toFinset i ((r.applyEntry joint).applyEntry stable) := by
  rw [applyEntry_config (Or.inl hjoint), applyEntry_config (Or.inr hstable)]
  have hex : Excludes i (r.applyConfigChangeLocked joint) := h.applyConfigChangeLocked
  have hpeers : ∀ a, a ∈ (r.applyConfigChangeLocked joint).peers.keys ↔
      a ∈ r.peers.keys ∨ (a ∈ cfg.newPeers ∧ a ≠ i) := by
    intro a
    rw [RaftNode.applyConfigChangeLocked, hjoint, hcfg, mem_peers_addLearners]
    show a ∈ r.peers.keys ∨ (a ∈ cfg.newPeers ∧ a ≠ r.selfAddr) ↔ _
    rw [h.name]
  -- between the entries: the old peers and the new ones as learners
  generalize r.applyConfigChangeLocked joint = r' at hex hpeers
  obtain ⟨ps, isr, ni, mi, hshape⟩ := foldl_shape dropPeer_shape r'.peers.keys
    { r' with
      currentConfig := configOf cfg'.newPeers
      newConfig := none
      configState := .stable }
  have happlied : r'.applyConfigChangeLocked stable = r'.peers.keys.foldl dropPeer
      { r' with
        currentConfig := configOf cfg'.newPeers
        newConfig := none
        configState := .stable } := by
    rw [RaftNode.applyConfigChangeLocked, hstable, hcfg']
  have hconfig : (r'.applyConfigChangeLocked stable).currentConfig = configOf cfg'.newPeers := by
    rw [happlied, hshape]
  refine ⟨(Excludes.applyConfigChangeLocked hex).name, ?_, fun a => ?_, fun a => ?_, fun a => ?_⟩
  · rw [happlied, hshape]
  · rw [hconfig, configOf_get, hsame, List.mem_toFinset]
  · rw [hconfig, mem_keys_configOf, hsame, List.mem_toFinset]
  -- the peers that stay are those of the new configuration
  · rw [happlied, mem_peers_dropPeers, List.mem_toFinset]
    show a ∈ r'.peers.keys ∧ (a ∈ r'.peers.keys → (configOf cfg'.newPeers).get a false = true) ↔ _
    rw [configOf_get, hsame]
    constructor
    · rintro ⟨hmem, hnew⟩
      exact ⟨hnew hmem, fun ha => hex.peers (ha ▸ hmem)⟩
    · rintro ⟨hnew, hne⟩
      exact ⟨(hpeers a).mpr (Or.inr ⟨hnew, hne⟩), fun _ => hnew⟩

/-- The new configuration of a node that has applied a `JOINT_CONSENSUS`. -/
theorem applyEntry_newConfig {r : RaftNode} {joint : LogEntry} {cfg : ConfigEntry}
    (hjoint : joint.type = .jointConsensus) (hcfg : joint.config = some cfg) :
    (r.applyEntry joint).newConfig = some (configOf cfg.newPeers) := by
  obtain ⟨ps, isr, ni, mi, hshape⟩ := foldl_shape addLearner_shape cfg.newPeers
    { r with
      currentConfig := configOf cfg.oldPeers
      newConfig := some (configOf cfg.newPeers)
      configState := .joint }
  rw [applyEntry_config (Or.inl hjoint), applyConfigChangeLocked, hjoint, hcfg]
  dsimp only
  rw [hshape]

/-! ## The counts -/

/-- Without the vote of `a` the node cannot win: too few voting peers are left,
or it has peers and none of them votes. -/
def Needs (r : RaftNode) (a : String) : Prop :=
  (r.nonLearnerPeers = [] ∧ r.peers.keys ≠ []) ∨
    (r.nonLearnerPeers.filter fun b => b ≠ a).length < (r.nonLearnerPeers.length + 1) / 2

/-- The voters of the candidate `c` are enough of what the leader `l` counts: `c`
is the leader, or cannot win without its vote, or more than half of the voters
and what `l` needs of the members are together more than the members. -/
def Overlap (c l : RaftNode) : Prop :=
  c.selfAddr = l.selfAddr ∨ c.Needs l.selfAddr ∨
    l.currentConfig.len < ((c.nonLearnerPeers.length + 1) / 2 + 1) +
      (l.currentConfig.len / 2 + if l.currentConfig.get l.selfAddr false then 1 else 0)

instance (r : RaftNode) (a : String) : Decidable (r.Needs a) := inferInstanceAs (Decidable (_ ∨ _))

instance (c l : RaftNode) : Decidable (Overlap c l) := inferInstanceAs (Decidable (_ ∨ _))

section counts

variable {M : Finset String} {c l : String} {rc rl : RaftNode}

theorem Knows.card {i : String} {r : RaftNode} (h : Knows M i r) : r.currentConfig.len = M.card := by
  have hkeys : r.currentConfig.keys.toFinset = M := by
    ext a
    rw [List.mem_toFinset, h.keys]
  rw [← hkeys, List.toFinset_card_of_nodup r.currentConfig.keys_nodup]
  exact (List.length_map _).symm

theorem Knows.toFinset_peers {i : String} {r : RaftNode} (h : Knows M i r) :
    r.peers.keys.toFinset = M.erase i := by
  ext a
  rw [List.mem_toFinset, h.peers, Finset.mem_erase, and_comm]

/-- A set of voters, the candidate among them, is a set of members. -/
theorem Knows.voters_subset (hc : Knows M c rc) (hcM : c ∈ M) {G : List String}
    (hG : G ⊆ rc.nonLearnerPeers) (hnodup : G.Nodup) :
    insert c G.toFinset ⊆ M ∧ (insert c G.toFinset).card = G.length + 1 := by
  have hpeer : ∀ a ∈ G, a ∈ M ∧ a ≠ c := fun a ha => (hc.peers a).mp
    (rc.nonLearnerPeers_subset (hG ha))
  constructor
  · intro a ha
    rcases Finset.mem_insert.mp ha with rfl | ha
    · exact hcM
    · exact (hpeer a (List.mem_toFinset.mp ha)).1
  · rw [Finset.card_insert_of_notMem, List.toFinset_card_of_nodup hnodup]
    exact fun hmem => (hpeer c (List.mem_toFinset.mp hmem)).2 rfl

/-- What a commit has counted, the leader included if it is a member, as a set of
members. -/
theorem Knows.acks_of_commits (hl : Knows M l rl) {W : Finset String} (hW : rl.Commits W) :
    ∃ Q ⊆ M, Q ⊆ W ∧
      rl.currentConfig.len / 2 + (if rl.currentConfig.get l false then 1 else 0) ≤ Q.card := by
  have hown : l ∈ W := hl.name ▸ hW.1
  obtain ⟨A, hnodup, hpeers, hconfig, hacked, hhalf⟩ := hW.members hl.stable
  have hcard := List.toFinset_card_of_nodup hnodup
  have hAM : A.toFinset ⊆ M := fun a ha => (hl.keys a).mp (hconfig (List.mem_toFinset.mp ha))
  have hAW : A.toFinset ⊆ W := fun a ha => hacked a (List.mem_toFinset.mp ha)
  by_cases hlM : rl.currentConfig.get l false = true
  · refine ⟨insert l A.toFinset, Finset.insert_subset ((hl.member l).mp hlM) hAM,
      Finset.insert_subset hown hAW, ?_⟩
    have hfresh : l ∉ A.toFinset := fun hmem =>
      ((hl.peers l).mp (hpeers (List.mem_toFinset.mp hmem))).2 rfl
    rw [Finset.card_insert_of_notMem hfresh, if_pos hlM]
    omega
  · refine ⟨A.toFinset, hAM, hAW, ?_⟩
    rw [if_neg hlM]
    omega

/-- The counts are enough for every vote to meet every commit. -/
theorem meet_of_overlap (hc : Knows M c rc) (hl : Knows M l rl) (hcM : c ∈ M)
    (hover : Overlap rc rl) {V W : Finset String} (hV : rc.Elects V) (hW : rl.Commits W) :
    ∃ a ∈ V, a ∈ W := by
  have hself : c ∈ V := hc.name ▸ hV.1
  have hown : l ∈ W := hl.name ▸ hW.1
  obtain ⟨hsome, G, hnodup, hsub, hgranted, hhalf⟩ := hV.voters hc.stable
  rw [Overlap, hc.name, hl.name] at hover
  rcases hover with rfl | hneeds | hcounts
  · exact ⟨c, hself, hown⟩
  · -- the leader is one of the voters
    by_cases hmem : l ∈ G
    · exact ⟨l, hgranted l hmem, hown⟩
    rcases hneeds with ⟨hnone, hpeers⟩ | hfew
    · rcases hsome with hnil | hne
      · exact absurd hnil hpeers
      · exact absurd hnone hne
    · have hle : G.length ≤ (rc.nonLearnerPeers.filter fun b => b ≠ l).length := by
        refine (hnodup.subperm fun a ha => List.mem_filter.mpr ⟨hsub ha, ?_⟩).length_le
        exact decide_eq_true fun heq => hmem (heq ▸ ha)
      omega
  -- by counting
  · obtain ⟨hVM, hVcard⟩ := hc.voters_subset hcM hsub hnodup
    obtain ⟨Q, hQM, hQW, hQcard⟩ := hl.acks_of_commits hW
    have hlt : M.card < (insert c G.toFinset).card + Q.card := by
      rw [hl.card] at hcounts hQcard
      omega
    obtain ⟨a, ha⟩ := Finset.inter_nonempty_of_card_lt_card_add_card hVM hQM hlt
    obtain ⟨haV, haQ⟩ := Finset.mem_inter.mp ha
    refine ⟨a, ?_, hQW haQ⟩
    rcases Finset.mem_insert.mp haV with rfl | haG
    · exact hself
    · exact hgranted a (List.mem_toFinset.mp haG)

/-- The members are a set of peers of the leader, its other peers, and the leader
if it is one. -/
theorem Knows.length_rest (hl : Knows M l rl) {V : Finset String} (hV : V ⊆ M.erase l) :
    (rl.peers.keys.filter fun a => a ∉ V).length + V.card +
      (if rl.currentConfig.get l false then 1 else 0) = M.card := by
  have hrest : (rl.peers.keys.filter fun a => a ∉ V).toFinset = M.erase l \ V := by
    rw [← hl.toFinset_peers]
    ext a
    simp
  have hlen : (rl.peers.keys.filter fun a => a ∉ V).length = (M.erase l \ V).card := by
    rw [← hrest, List.toFinset_card_of_nodup]
    exact rl.peers.keys_nodup.sublist List.filter_sublist
  rw [hlen, Finset.card_sdiff_add_card_eq_card hV]
  by_cases hlM : l ∈ M
  · rw [if_pos ((hl.member l).mpr hlM), Finset.card_erase_add_one hlM]
  · rw [if_neg fun hmem => hlM ((hl.member l).mp hmem), Finset.erase_eq_of_notMem hlM]
    rfl

/-- Where the counts are not enough, some of the voters elect the candidate and
the other members commit. -/
theorem disjoint_of_not_overlap (hc : Knows M c rc) (hl : Knows M l rl) (hcM : c ∈ M)
    (hover : ¬Overlap rc rl) :
    ∃ V W : Finset String, rc.Elects V ∧ rl.Commits W ∧ ∀ a ∈ V, a ∉ W := by
  rw [Overlap, hc.name, hl.name] at hover
  obtain ⟨hne, hover⟩ := not_or.mp hover
  obtain ⟨hneeds, hcounts⟩ := not_or.mp hover
  obtain ⟨hnone, hfew⟩ := not_or.mp hneeds
  have hsome : rc.peers.keys = [] ∨ rc.nonLearnerPeers ≠ [] := by tauto
  -- half of the voting peers, none of them the leader
  let half := (rc.nonLearnerPeers.length + 1) / 2
  let L := (rc.nonLearnerPeers.filter fun b => b ≠ l).take half
  have hLmem : ∀ a ∈ L, a ∈ rc.nonLearnerPeers ∧ a ≠ l := by
    intro a ha
    obtain ⟨hmem, hal⟩ := List.mem_filter.mp (List.mem_of_mem_take ha)
    exact ⟨hmem, of_decide_eq_true hal⟩
  have hLsub : L ⊆ rc.nonLearnerPeers := fun a ha => (hLmem a ha).1
  have hLnodup : L.Nodup :=
    rc.nodup_nonLearnerPeers.sublist ((List.take_sublist _ _).trans List.filter_sublist)
  have hLlen : L.length = half := by
    rw [List.length_take]
    exact min_eq_left (not_lt.mp hfew)
  obtain ⟨hVM, hVcard⟩ := hc.voters_subset hcM hLsub hLnodup
  have helects := elects_of_voters hc.stable hsome hLnodup hLsub (le_of_eq hLlen.symm)
  rw [hc.name] at helects
  have hlV : insert c L.toFinset ⊆ M.erase l := by
    intro a ha
    refine Finset.mem_erase.mpr ⟨?_, hVM ha⟩
    rcases Finset.mem_insert.mp ha with rfl | ha
    · exact hne
    · exact (hLmem a (List.mem_toFinset.mp ha)).2
  -- the leader's other peers are the rest of the members
  have hrest := hl.length_rest hlV
  have hApeers : (rl.peers.keys.filter fun a => a ∉ insert c L.toFinset) ⊆ rl.peers.keys :=
    List.filter_subset_self _
  have hcommits := commits_of_members hl.stable
    (rl.peers.keys_nodup.sublist List.filter_sublist) hApeers
    (fun a ha => (hl.member a).mpr ((hl.peers a).mp (hApeers ha)).1) (by
      rw [hl.card] at hcounts ⊢
      rw [hVcard, hLlen] at hrest
      omega)
  rw [hl.name] at hcommits
  refine ⟨_, _, helects, hcommits, fun a haV haW => ?_⟩
  rcases Finset.mem_insert.mp haW with rfl | haA
  · exact (Finset.mem_erase.mp (hlV haV)).1 rfl
  · exact of_decide_eq_true (List.mem_filter.mp (List.mem_toFinset.mp haA)).2 haV

end counts

/-- The checks of `AddNode` (true) or `RemoveNode`. -/
def checkChange (r : RaftNode) (addr : String) (add : Bool) : Except String Unit :=
  if add then r.addNode addr else r.removeNode addr

end RaftNode

open RaftNode

/-! ## Groups -/

section groups

variable [GrowthPolicy]

/-- An `AddNode` (true) or `RemoveNode` call on a leader. -/
structure Change where
  leader : String
  addr : String
  add : Bool

/-- The addresses that are or have been members, and the node behind every
address. -/
structure Group where
  nodes : List String
  node : String → RaftNode

namespace Group

/-- The founders are started with each other as peers, any other node with a
list of its own. -/
def boot (founders : List String) (start : String → List String) (dir : String → String) :
    Group where
  nodes := founders
  node i := newRaftNode i (if i ∈ founders then founders else start i) (dir i) {}

/-- A change that passes its checks on a node that leads, and its
`JOINT_CONSENSUS` and `CONF_CHANGE` entries applied on every node. A node that
joins later applies the same entries from the start of the log. Nothing but
membership is kept in step: logs, terms and roles play no part in what is
counted. -/
def step (g : Group) (ch : Change) : Option Group :=
  let leader := { g.node ch.leader with state := .leader }
  match leader.checkChange ch.addr ch.add with
  | .ok _ =>
    if ch.leader ∈ g.nodes then
      let joint := leader.jointEntry ch.addr ch.add
      let stable := (leader.applyEntry joint).stableEntry
      some
        { nodes := if ch.add then ch.addr :: g.nodes else g.nodes
          node := fun i => ((g.node i).applyEntry joint).applyEntry stable }
    else none
  | .error _ => none

/-- No node is its own peer, and the nodes of the group know the same members. -/
structure Synced (g : Group) (M : Finset String) : Prop where
  excludes : ∀ i, Excludes i (g.node i)
  knows : ∀ i ∈ g.nodes, Knows M i (g.node i)

theorem synced_boot (founders : List String) (start : String → List String)
    (dir : String → String) : Synced (boot founders start dir) founders.toFinset where
  excludes i := excludes_newRaftNode i _ (dir i) {}
  knows i hi := by
    show Knows _ i (newRaftNode i (if i ∈ founders then founders else start i) (dir i) {})
    rw [if_pos (show i ∈ founders from hi)]
    exact knows_newRaftNode (dir i) hi

omit [GrowthPolicy] in
/-- **Step.** After a change every node knows the members the leader has named. -/
theorem Synced.step {g g' : Group} {M : Finset String} {ch : Change} (h : Synced g M)
    (hst : g.step ch = some g') : ∃ M', Synced g' M' := by
  rw [Group.step] at hst
  dsimp only at hst
  split at hst
  case h_2 => cases hst
  case h_1 hcheck =>
  split at hst
  case isFalse => cases hst
  case isTrue hleader =>
  cases hst
  generalize ({ g.node ch.leader with state := .leader } : RaftNode) = leader
  obtain ⟨cfg, hcfg⟩ : ∃ cfg, (leader.jointEntry ch.addr ch.add).config = some cfg := ⟨_, rfl⟩
  -- the second entry names the addresses of the first
  have hsame : ∀ a, a ∈ ((leader.applyEntry (leader.jointEntry ch.addr ch.add)).newConfig.map
      AList.keys).getD [] ↔ a ∈ cfg.newPeers := by
    intro a
    rw [applyEntry_newConfig rfl hcfg]
    exact mem_keys_configOf cfg.newPeers a
  have hknows : ∀ i, Knows cfg.newPeers.toFinset i
      (((g.node i).applyEntry (leader.jointEntry ch.addr ch.add)).applyEntry
        (leader.applyEntry (leader.jointEntry ch.addr ch.add)).stableEntry) :=
    fun i => (h.excludes i).knows rfl hcfg rfl rfl hsame
  refine ⟨cfg.newPeers.toFinset, fun i => ?_, fun i _ => hknows i⟩
  exact ⟨(hknows i).name, fun hmem => (((hknows i).peers i).mp hmem).2 rfl⟩

end Group

/-- **Quorums under membership changes.** Start the founders of a cluster with
each other as peers and every later node with any list, and let any sequence of
`AddNode` and `RemoveNode` calls run, each with both of its entries applied on
every node. Then the votes that make a member Leader and the acknowledgements
that commit an entry on a leader always have a node in common if and only if the
member's voters are enough of the configuration. -/
theorem quorums_meet_iff {founders : List String} {start : String → List String}
    {dir : String → String} {g : Group} {c l : String}
    (hrun : Run Group.step (fun _ _ _ => True) (Group.boot founders start dir) g)
    (hc : c ∈ g.nodes) (hl : l ∈ g.nodes)
    (hmember : (g.node c).currentConfig.get c false = true) :
    (∀ V W : Finset String, (g.node c).Elects V → (g.node l).Commits W → ∃ a ∈ V, a ∈ W) ↔
      Overlap (g.node c) (g.node l) := by
  obtain ⟨M, hsynced⟩ : ∃ M, g.Synced M := by
    refine hrun.invariant (P := fun g => ∃ M, g.Synced M)
      ⟨_, Group.synced_boot founders start dir⟩ ?_
    rintro g ch g' ⟨M, h⟩ _ hst
    exact h.step hst
  have hcM : c ∈ M := ((hsynced.knows c hc).member c).mp hmember
  constructor
  · intro hmeet
    by_contra hover
    obtain ⟨V, W, hV, hW, hdisjoint⟩ :=
      disjoint_of_not_overlap (hsynced.knows c hc) (hsynced.knows l hl) hcM hover
    obtain ⟨a, haV, haW⟩ := hmeet V W hV hW
    exact hdisjoint a haV haW
  · intro hover V W hV hW
    exact meet_of_overlap (hsynced.knows c hc) (hsynced.knows l hl) hcM hover hV hW

end groups

section traces

open scoped GrowthPolicy

/-- Three founders, one node added and one removed: the votes for `a` meet the
commits of `c`. -/
theorem quorums_meet_of_add_remove :
    ∃ g, Run Group.step (fun _ _ _ => True)
        (Group.boot ["a", "b", "c"] (fun _ => ["a", "b", "c"]) fun _ => "data") g ∧
      "d" ∈ g.nodes ∧ (g.node "a").nonLearnerPeers = ["c"] ∧
      ∀ V W : Finset String, (g.node "a").Elects V → (g.node "c").Commits W → ∃ a ∈ V, a ∈ W := by
  obtain ⟨g, hrun, hd, hvoters, ha, hc, hmember, hover⟩ : ∃ g,
      Run Group.step (fun _ _ _ => True)
          (Group.boot ["a", "b", "c"] (fun _ => ["a", "b", "c"]) fun _ => "data") g ∧
        "d" ∈ g.nodes ∧ (g.node "a").nonLearnerPeers = ["c"] ∧ "a" ∈ g.nodes ∧ "c" ∈ g.nodes ∧
        (g.node "a").currentConfig.get "a" false = true ∧ Overlap (g.node "a") (g.node "c") :=
    exists_run_of_execWith [⟨"a", "d", true⟩, ⟨"c", "b", false⟩] (by decide +kernel)
  exact ⟨g, hrun, hd, hvoters, (quorums_meet_iff hrun ha hc hmember).mpr hover⟩

/-- **Two added nodes split the quorums.** After `d` and `e` have joined `a`, `b`
and `c`, the votes of `a` and `b` make `a` Leader, while an entry on `c` commits
with the acknowledgements of `d` and `e`. -/
theorem two_added_nodes_split :
    ∃ g, Run Group.step (fun _ _ _ => True)
        (Group.boot ["a", "b", "c"] (fun _ => ["a", "b", "c"]) fun _ => "data") g ∧
      "a" ∈ g.nodes ∧ "c" ∈ g.nodes ∧ (g.node "a").currentConfig.get "a" false = true ∧
      (g.node "a").Elects {"a", "b"} ∧ (g.node "c").Commits {"c", "d", "e"} ∧
      ∀ a ∈ ({"a", "b"} : Finset String), a ∉ ({"c", "d", "e"} : Finset String) := by
  obtain ⟨g, hrun, ha, hc, hmember, ⟨hself, hstable, hpeers, hsub, hlen⟩,
      hself', hstable', hsub', hconfig, hlen'⟩ : ∃ g,
      Run Group.step (fun _ _ _ => True)
          (Group.boot ["a", "b", "c"] (fun _ => ["a", "b", "c"]) fun _ => "data") g ∧
        "a" ∈ g.nodes ∧ "c" ∈ g.nodes ∧ (g.node "a").currentConfig.get "a" false = true ∧
        ((g.node "a").selfAddr = "a" ∧ (g.node "a").configState = .stable ∧
          (g.node "a").nonLearnerPeers ≠ [] ∧ ["b"] ⊆ (g.node "a").nonLearnerPeers ∧
          ((g.node "a").nonLearnerPeers.length + 1) / 2 ≤ 1) ∧
        (g.node "c").selfAddr = "c" ∧ (g.node "c").configState = .stable ∧
        ["d", "e"] ⊆ (g.node "c").peers.keys ∧
        (∀ a ∈ ["d", "e"], (g.node "c").currentConfig.get a false = true) ∧
        (g.node "c").currentConfig.len / 2 ≤ 2 :=
    exists_run_of_execWith [⟨"a", "d", true⟩, ⟨"a", "e", true⟩] (by decide +kernel)
  have helects := elects_of_voters (L := ["b"]) hstable (Or.inr hpeers) (by decide) hsub hlen
  have hcommits := commits_of_members (A := ["d", "e"]) hstable' (by decide) hsub' hconfig hlen'
  rw [hself] at helects
  rw [hself'] at hcommits
  exact ⟨g, hrun, ha, hc, hmember, helects, hcommits, by decide⟩

end traces

end DistributedMQ.Raft
