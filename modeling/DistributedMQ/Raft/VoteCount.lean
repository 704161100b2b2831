import DistributedMQ.Lib.Thresholds
import DistributedMQ.Raft.CommitQuorum
import DistributedMQ.Raft.Tally

/-!
# Counting votes (`raft.go` lines 183–273 and 661–709)

A candidate should lead as soon as those who have granted their vote, and itself, contain a strict
majority of the voters of `currentConfig` and, in the joint state, of `newConfig`. `startElection`
keeps three counters instead. In the stable state it compares all granted votes with the number of
voting *peers*; in the joint state its own vote counts in the old configuration and never in the
new one; and it compares only when a vote arrives.

- `RaftNode.Elected`: the definition of a quorum; `RaftNode.elect`: the node after some replies.
- `elect_leader_iff`: what `startElection` and its goroutines make of the replies.
- `counts_votes_iff`: the two agree on every sequence of replies iff the thresholds do. In the
  stable state all voting peers have to be members and as many as it takes; in the joint state the
  two pairs of thresholds have to bring each other about.
- `elected_not_leader`: a sole voter with a learner, and a joint state, in which the candidate is
  elected and does not lead.
-/

namespace DistributedMQ.Raft

open Machine Thresholds

namespace RaftNode

/-- The node lists the address as a peer that is a learner. -/
def isLearner (r : RaftNode) (addr : String) : Bool := (r.peers.lookup addr).any Peer.learner

/-- The voters of `currentConfig`: its members that are no learners. -/
def voters (r : RaftNode) : List String :=
  r.currentConfig.keys.filter fun a => r.currentConfig.get a false && !r.isLearner a

/-- The members of `newConfig`. -/
def newMembers (r : RaftNode) : List String :=
  ((r.newConfig.map AList.keys).getD []).filter r.inNewConfig

/-- **Elected.** The candidate and those who have granted their vote contain a strict majority of
the voters of `currentConfig` and, in the joint state, of `newConfig`. -/
def Elected (r : RaftNode) (granted : List String) : Prop :=
  Majority r.voters (fun a => a = r.selfAddr ∨ a ∈ granted) ∧
    (r.configState = .joint → Majority r.newMembers fun a => a = r.selfAddr ∨ a ∈ granted)

instance (r : RaftNode) (granted : List String) : Decidable (r.Elected granted) :=
  inferInstanceAs (Decidable (_ ∧ _))

/-- `startElection`, and then these replies. -/
def elect (r : RaftNode) (id : ℕ) (replies : List (String × RequestVoteReply)) : RaftNode :=
  match r.startElection id with
  | (r, none) => r
  | (r, some e) => r.tally e replies

/-- Replies of some of the voting peers, none of a newer term than the election. -/
structure Replies (r : RaftNode) (replies : List (String × RequestVoteReply)) : Prop where
  nodup : (replies.map Prod.fst).Nodup
  peers : ∀ x ∈ replies, x.1 ∈ r.nonLearnerPeers
  term : ∀ x ∈ replies, x.2.term ≤ inc64 r.currentTerm

/-- **The count is the quorum.** After any replies, in any order, the node leads iff it is
elected. -/
def CountsVotes (r : RaftNode) : Prop :=
  ∀ id replies, r.Replies replies →
    ((r.elect id replies).state = .leader ↔ r.Elected (granted replies))

/-- The voting peers in a configuration. -/
def votingIn (r : RaftNode) (config : String → Bool) : Finset String :=
  (r.nonLearnerPeers.filter config).toFinset

/-- The votes that a strict majority of these members needs besides the candidate's own. -/
def votesNeeded (r : RaftNode) (members : List String) : ℕ :=
  members.length / 2 + 1 - if r.selfAddr ∈ members then 1 else 0

/-- **The thresholds agree**: those of the code and those of the definition. Without peers the
node leads at once, and without voting peers never. -/
def QuorumsAgree (r : RaftNode) : Prop :=
  (r.peers.keys = [] → r.Elected []) ∧
    (r.peers.keys ≠ [] → r.configState = .stable →
      (r.nonLearnerPeers = [] → ¬ r.Elected []) ∧
        (r.nonLearnerPeers ≠ [] →
          (∀ p ∈ r.nonLearnerPeers, r.currentConfig.get p false = true) ∧
            (r.nonLearnerPeers.length + 1) / 2 = r.votesNeeded r.voters)) ∧
    (r.peers.keys ≠ [] → r.configState = .joint →
      BringsAbout (r.votingIn fun p => r.currentConfig.get p false) (r.votingIn r.inNewConfig)
          (r.currentConfig.len / 2) (r.newConfigLen / 2 + 1)
          (r.votesNeeded r.voters) (r.votesNeeded r.newMembers) ∧
        BringsAbout (r.votingIn fun p => r.currentConfig.get p false) (r.votingIn r.inNewConfig)
          (r.votesNeeded r.voters) (r.votesNeeded r.newMembers)
          (r.currentConfig.len / 2) (r.newConfigLen / 2 + 1))

instance (r : RaftNode) : Decidable r.QuorumsAgree := inferInstanceAs (Decidable (_ ∧ _ ∧ _))

variable {r : RaftNode} {replies : List (String × RequestVoteReply)}

theorem replies_nil (r : RaftNode) : r.Replies [] :=
  ⟨List.nodup_nil, fun _ hx => absurd hx List.not_mem_nil, fun _ hx => absurd hx List.not_mem_nil⟩

theorem Replies.map_fst_subset (h : r.Replies replies) :
    replies.map Prod.fst ⊆ r.nonLearnerPeers := by
  intro a ha
  obtain ⟨x, hx, rfl⟩ := List.mem_map.mp ha
  exact h.peers x hx

/-- **`startElection` and the replies.** With peers the node leads iff some vote has been granted
and the votes pass; without, at once. -/
theorem elect_leader_iff (hreplies : r.Replies replies) (id : ℕ) :
    (r.elect id replies).state = .leader ↔ r.peers.keys = [] ∨
      granted replies ≠ [] ∧ (r.campaign.newElection id).Passes r (granted replies) := by
  rw [elect, startElection]
  split
  · rename_i hstart
    split at hstart
    · rename_i hpeers
      obtain ⟨rfl, -⟩ := Prod.mk.inj hstart
      refine iff_of_true ?_ (Or.inl hpeers)
      simp [becomeLeader, closePending]
    · cases hstart
  · rename_i r' e hstart
    split at hstart
    · cases hstart
    · rename_i hpeers
      obtain ⟨rfl, he⟩ := Prod.mk.inj hstart
      cases he
      rw [or_iff_right hpeers]
      have hterm : r.campaign.saveState.currentTerm = inc64 r.currentTerm := by simp [campaign]
      refine (tally_leader_iff (by simp [campaign]) (by simp [campaign, newElection]) ?_
        hreplies.nodup hreplies.map_fst_subset).trans ?_
      · rw [hterm]
        exact hreplies.term
      · have hconfig : r.campaign.saveState.currentConfig = r.currentConfig := by simp [campaign]
        have hnew : r.campaign.saveState.inNewConfig = r.inNewConfig := by
          funext p
          simp [campaign, inNewConfig]
        rw [Election.Passes, Election.Passes, hconfig, hnew]

/-! ## Votes as sets -/

theorem mem_nonLearnerPeers {a : String} :
    a ∈ r.nonLearnerPeers ↔ ∃ peer ∈ r.peers.lookup a, peer.learner = false := by
  constructor
  · intro h
    obtain ⟨⟨q, peer⟩, hmem, rfl⟩ := List.mem_map.mp h
    obtain ⟨hentry, hlearner⟩ := List.mem_filter.mp hmem
    exact ⟨peer, AList.mem_lookup_iff.mpr hentry, by simpa using hlearner⟩
  · rintro ⟨peer, hpeer, hlearner⟩
    refine List.mem_map.mpr ⟨⟨a, peer⟩, List.mem_filter.mpr ⟨AList.mem_lookup_iff.mp hpeer, ?_⟩, rfl⟩
    simpa using hlearner

theorem Replies.nodup_granted (h : r.Replies replies) : (granted replies).Nodup :=
  h.nodup.sublist (List.filter_sublist.map _)

theorem Replies.granted_subset (h : r.Replies replies) : granted replies ⊆ r.nonLearnerPeers := by
  intro a ha
  obtain ⟨x, hx, rfl⟩ := List.mem_map.mp ha
  exact h.peers x (List.mem_filter.mp hx).1

/-- Any set of voting peers can be the one that grants its vote. -/
theorem exists_replies {G : Finset String} (hG : G ⊆ r.nonLearnerPeers.toFinset) :
    ∃ replies, r.Replies replies ∧ (granted replies).toFinset = G := by
  refine ⟨G.toList.map grant, ⟨?_, ?_, ?_⟩, ?_⟩
  · rw [map_fst_grant]
    exact G.nodup_toList
  · intro x hx
    obtain ⟨p, hp, rfl⟩ := List.mem_map.mp hx
    exact List.mem_toFinset.mp (hG (Finset.mem_toList.mp hp))
  · intro x hx
    obtain ⟨p, -, rfl⟩ := List.mem_map.mp hx
    exact Nat.zero_le _
  · rw [granted_map_grant, Finset.toList_toFinset]

/-- A count of votes in a configuration is the size of a set. -/
theorem countP_granted (h : r.Replies replies) (config : String → Bool) :
    (granted replies).countP config = ((granted replies).toFinset ∩ r.votingIn config).card := by
  rw [List.countP_eq_length_filter,
    ← List.toFinset_card_of_nodup (h.nodup_granted.filter _)]
  congr 1
  ext a
  simp only [votingIn, List.mem_toFinset, List.mem_filter, Finset.mem_inter]
  constructor
  · rintro ⟨ha, hin⟩
    exact ⟨ha, h.granted_subset ha, hin⟩
  · rintro ⟨ha, -, hin⟩
    exact ⟨ha, hin⟩

theorem length_granted (h : r.Replies replies) :
    (granted replies).length =
      ((granted replies).toFinset ∩ r.nonLearnerPeers.toFinset).card := by
  rw [← List.toFinset_card_of_nodup h.nodup_granted, Finset.inter_eq_left.mpr]
  intro a ha
  exact List.mem_toFinset.mpr (h.granted_subset (List.mem_toFinset.mp ha))

/-- **Majorities with the candidate's own vote.** -/
theorem majority_iff_votesNeeded {members votes : List String} (hnodup : members.Nodup)
    (hself : r.selfAddr ∉ votes) :
    Majority members (fun a => a = r.selfAddr ∨ a ∈ votes) ↔
      r.votesNeeded members ≤ (votes.toFinset ∩ members.toFinset).card := by
  rw [Majority.iff_lt_filter, hnodup.dedup, ← List.toFinset_card_of_nodup (hnodup.filter _),
    votesNeeded]
  have hnot : r.selfAddr ∉ votes.toFinset ∩ members.toFinset := by
    intro hmem
    exact hself (List.mem_toFinset.mp (Finset.mem_inter.mp hmem).1)
  by_cases hin : r.selfAddr ∈ members
  -- a member counts itself
  · have hset : (members.filter fun a => decide (a = r.selfAddr ∨ a ∈ votes)).toFinset =
        insert r.selfAddr (votes.toFinset ∩ members.toFinset) := by
      ext a
      simp only [List.mem_toFinset, List.mem_filter, decide_eq_true_iff, Finset.mem_insert,
        Finset.mem_inter]
      constructor
      · rintro ⟨ha, rfl | hv⟩
        · exact Or.inl rfl
        · exact Or.inr ⟨hv, ha⟩
      · rintro (rfl | ⟨hv, ha⟩)
        · exact ⟨hin, Or.inl rfl⟩
        · exact ⟨ha, Or.inr hv⟩
    rw [hset, Finset.card_insert_of_notMem hnot, if_pos hin]
    omega
  · have hset : (members.filter fun a => decide (a = r.selfAddr ∨ a ∈ votes)).toFinset =
        votes.toFinset ∩ members.toFinset := by
      ext a
      simp only [List.mem_toFinset, List.mem_filter, decide_eq_true_iff, Finset.mem_inter]
      constructor
      · rintro ⟨ha, rfl | hv⟩
        · exact absurd ha hin
        · exact ⟨hv, ha⟩
      · rintro ⟨hv, ha⟩
        exact ⟨ha, Or.inr hv⟩
    rw [hset, if_neg hin]
    omega

/-- Among voting peers the voters are the members. -/
theorem inter_voters (h : r.Replies replies) :
    (granted replies).toFinset ∩ r.voters.toFinset =
      (granted replies).toFinset ∩ r.votingIn fun p => r.currentConfig.get p false := by
  ext a
  simp only [Finset.mem_inter, List.mem_toFinset, voters, votingIn, List.mem_filter]
  refine and_congr_right fun ha => ?_
  have hpeer := h.granted_subset ha
  obtain ⟨peer, hlookup, hlearner⟩ := mem_nonLearnerPeers.mp hpeer
  have hno : r.isLearner a = false := by
    rw [isLearner, show r.peers.lookup a = some peer from hlookup]
    exact hlearner
  rw [hno, Bool.not_false, Bool.and_true]
  constructor
  · exact fun hin => ⟨hpeer, hin.2⟩
  · exact fun hin => ⟨GoMap.mem_keys_of_get hin.2, hin.2⟩

theorem inter_newMembers (h : r.Replies replies) :
    (granted replies).toFinset ∩ r.newMembers.toFinset =
      (granted replies).toFinset ∩ r.votingIn r.inNewConfig := by
  ext a
  simp only [Finset.mem_inter, List.mem_toFinset, newMembers, votingIn, List.mem_filter]
  refine and_congr_right fun ha => ?_
  constructor
  · exact fun hin => ⟨h.granted_subset ha, hin.2⟩
  · rintro ⟨-, hin⟩
    refine ⟨?_, hin⟩
    rw [inNewConfig] at hin
    cases hconfig : r.newConfig with
    | none =>
      rw [hconfig] at hin
      cases hin
    | some config =>
      rw [hconfig] at hin
      exact GoMap.mem_keys_of_get hin

theorem nodup_voters (r : RaftNode) : r.voters.Nodup := r.currentConfig.keys_nodup.filter _

theorem nodup_newMembers (r : RaftNode) : r.newMembers.Nodup := by
  rw [newMembers]
  cases r.newConfig with
  | none => exact List.nodup_nil
  | some config => exact config.keys_nodup.filter _

/-- **The definition of a quorum, as thresholds.** -/
theorem elected_iff (hself : r.selfAddr ∉ r.peers.keys) (h : r.Replies replies) :
    r.Elected (granted replies) ↔
      r.votesNeeded r.voters ≤
          ((granted replies).toFinset ∩ r.votingIn fun p => r.currentConfig.get p false).card ∧
        (r.configState = .joint → r.votesNeeded r.newMembers ≤
          ((granted replies).toFinset ∩ r.votingIn r.inNewConfig).card) := by
  have hnot : r.selfAddr ∉ granted replies := by
    intro hmem
    exact hself (r.nonLearnerPeers_subset (h.granted_subset hmem))
  rw [Elected, majority_iff_votesNeeded r.nodup_voters hnot,
    majority_iff_votesNeeded r.nodup_newMembers hnot, inter_voters h, inter_newMembers h]

/-! ## When the two agree -/

theorem not_joint (hstable : r.configState = .stable) : r.configState ≠ .joint := by
  rw [hstable]
  decide

/-- The replies are a matter of sets. -/
theorem countsVotes_iff_forall {code quorum : Finset String → Prop}
    (hcode : ∀ id replies, r.Replies replies →
      ((r.elect id replies).state = .leader ↔ code (granted replies).toFinset))
    (hquorum : ∀ replies, r.Replies replies →
      (r.Elected (granted replies) ↔ quorum (granted replies).toFinset)) :
    r.CountsVotes ↔ ∀ G ⊆ r.nonLearnerPeers.toFinset, code G ↔ quorum G := by
  constructor
  · intro hcounts G hG
    obtain ⟨replies, hreplies, rfl⟩ := exists_replies hG
    rw [← hcode 0 replies hreplies, ← hquorum replies hreplies]
    exact hcounts 0 replies hreplies
  · intro hall id replies hreplies
    rw [hcode id replies hreplies, hquorum replies hreplies]
    refine hall _ fun a ha => ?_
    exact List.mem_toFinset.mpr (hreplies.granted_subset (List.mem_toFinset.mp ha))

theorem votingIn_subset (r : RaftNode) (config : String → Bool) :
    r.votingIn config ⊆ r.nonLearnerPeers.toFinset := by
  intro a ha
  exact List.mem_toFinset.mpr (List.mem_filter.mp (List.mem_toFinset.mp ha)).1

/-- In the joint state the count is a quorum iff the thresholds of the code bring about the
majorities of both configurations, and the other way round. -/
theorem countsVotes_joint_iff (hself : r.selfAddr ∉ r.peers.keys) (hpeers : r.peers.keys ≠ [])
    (hjoint : r.configState = .joint) :
    r.CountsVotes ↔
      BringsAbout (r.votingIn fun p => r.currentConfig.get p false) (r.votingIn r.inNewConfig)
          (r.currentConfig.len / 2) (r.newConfigLen / 2 + 1)
          (r.votesNeeded r.voters) (r.votesNeeded r.newMembers) ∧
        BringsAbout (r.votingIn fun p => r.currentConfig.get p false) (r.votingIn r.inNewConfig)
          (r.votesNeeded r.voters) (r.votesNeeded r.newMembers)
          (r.currentConfig.len / 2) (r.newConfigLen / 2 + 1) := by
  rw [← meets_congr_iff (Finset.union_subset (r.votingIn_subset _) (r.votingIn_subset _))]
  refine countsVotes_iff_forall (fun id replies hreplies => ?_) fun replies hreplies => ?_
  · rw [elect_leader_iff hreplies, or_iff_right hpeers, Meets, ← countP_granted hreplies,
      ← countP_granted hreplies, Election.Passes,
      show (r.campaign.newElection id).configState = .joint from hjoint]
    show _ ∧ r.currentConfig.len / 2 + 1 ≤ 1 + _ ∧ r.newConfigLen / 2 + 1 ≤ 0 + _ ↔ _
    constructor
    · rintro ⟨-, hold, hnew⟩
      omega
    · rintro ⟨hold, hnew⟩
      refine ⟨?_, by omega, by omega⟩
      intro hnil
      rw [hnil, List.countP_nil] at hnew
      omega
  · rw [elected_iff hself hreplies, Meets]
    exact and_congr_right fun _ => forall_prop_of_true hjoint

/-- In the stable state the same for the one threshold and the one majority. -/
theorem countsVotes_stable_iff (hself : r.selfAddr ∉ r.peers.keys) (hpeers : r.peers.keys ≠ [])
    (hstable : r.configState = .stable) :
    r.CountsVotes ↔
      BringsAbout r.nonLearnerPeers.toFinset (r.votingIn fun p => r.currentConfig.get p false)
          (max 1 ((r.nonLearnerPeers.length + 1) / 2)) 0 0 (r.votesNeeded r.voters) ∧
        BringsAbout r.nonLearnerPeers.toFinset (r.votingIn fun p => r.currentConfig.get p false)
          0 (r.votesNeeded r.voters) (max 1 ((r.nonLearnerPeers.length + 1) / 2)) 0 := by
  rw [← meets_congr_iff (Finset.union_subset (Finset.Subset.refl _) (r.votingIn_subset _))]
  refine countsVotes_iff_forall (fun id replies hreplies => ?_) fun replies hreplies => ?_
  · rw [elect_leader_iff hreplies, or_iff_right hpeers, Meets, ← length_granted hreplies,
      Election.Passes, show (r.campaign.newElection id).configState = .stable from hstable]
    show _ ∧ (r.nonLearnerPeers.length + 1) / 2 < 1 + (granted replies).length ↔ _
    rw [← List.length_pos_iff]
    omega
  · rw [elected_iff hself hreplies, Meets, and_comm]
    exact and_congr_left fun _ =>
      iff_of_true (fun hjoint => absurd hjoint (not_joint hstable)) (Nat.zero_le _)

theorem stable_thresholds {n d k t : ℕ} (h : d + k = n) :
    ((max 1 ((n + 1) / 2) ≤ n → 0 ≤ k → 0 ≤ max (max 1 ((n + 1) / 2)) (0 - 0) ∧
          t ≤ max 0 (max 1 ((n + 1) / 2) - d)) ∧
        (0 ≤ n → t ≤ k → max 1 ((n + 1) / 2) ≤ max 0 (t - 0) ∧ 0 ≤ max t (0 - d))) ↔
      (n = 0 → 0 < t) ∧ (¬ n = 0 → d = 0 ∧ (n + 1) / 2 = t) := by
  constructor
  · rintro ⟨hcode, hquorum⟩
    have hquorum := hquorum (Nat.zero_le n)
    refine ⟨fun hn => ?_, fun hn => ?_⟩
    · by_contra ht
      have hone := (hquorum (by omega)).1
      omega
    · -- the votes asked for bring about a quorum, so a quorum can be had
      have hle := (hcode (by omega) (Nat.zero_le k)).2
      have hge := (hquorum (by omega)).1
      omega
  · rintro ⟨hzero, hpos⟩
    refine ⟨fun hn _ => ⟨Nat.zero_le _, ?_⟩, fun _ ht => ⟨?_, Nat.zero_le _⟩⟩
    · obtain ⟨hd, heq⟩ := hpos (by omega)
      omega
    · rcases Nat.eq_zero_or_pos n with hn | hn
      · have ht := hzero hn
        omega
      · obtain ⟨hd, heq⟩ := hpos hn.ne'
        omega

/-- The condition of the stable state: no voting peers and no election, or all voting peers are
members and as many votes are asked for as are needed. -/
theorem bringsAbout_stable_iff :
    (BringsAbout r.nonLearnerPeers.toFinset (r.votingIn fun p => r.currentConfig.get p false)
          (max 1 ((r.nonLearnerPeers.length + 1) / 2)) 0 0 (r.votesNeeded r.voters) ∧
        BringsAbout r.nonLearnerPeers.toFinset (r.votingIn fun p => r.currentConfig.get p false)
          0 (r.votesNeeded r.voters) (max 1 ((r.nonLearnerPeers.length + 1) / 2)) 0) ↔
      (r.nonLearnerPeers = [] → 0 < r.votesNeeded r.voters) ∧
        (r.nonLearnerPeers ≠ [] →
          (∀ p ∈ r.nonLearnerPeers, r.currentConfig.get p false = true) ∧
            (r.nonLearnerPeers.length + 1) / 2 = r.votesNeeded r.voters) := by
  have hcard : r.nonLearnerPeers.toFinset.card = r.nonLearnerPeers.length :=
    List.toFinset_card_of_nodup r.nodup_nonLearnerPeers
  have hsub := r.votingIn_subset fun p => r.currentConfig.get p false
  have hnone : (r.votingIn (fun p => r.currentConfig.get p false) \
      r.nonLearnerPeers.toFinset).card = 0 := by
    rw [Finset.sdiff_eq_empty_iff_subset.mpr hsub, Finset.card_empty]
  have hsplit := Finset.card_sdiff_add_card_eq_card hsub
  have hall : (r.nonLearnerPeers.toFinset \
      r.votingIn fun p => r.currentConfig.get p false).card = 0 ↔
        ∀ p ∈ r.nonLearnerPeers, r.currentConfig.get p false = true := by
    rw [Finset.card_eq_zero, Finset.sdiff_eq_empty_iff_subset]
    constructor
    · intro h p hp
      exact (List.mem_filter.mp (List.mem_toFinset.mp (h (List.mem_toFinset.mpr hp)))).2
    · intro h p hp
      have hp := List.mem_toFinset.mp hp
      exact List.mem_toFinset.mpr (List.mem_filter.mpr ⟨hp, h p hp⟩)
  rw [hcard] at hsplit
  rw [← hall, BringsAbout, BringsAbout, hnone, hcard, ne_eq, ← List.length_eq_zero_iff]
  exact stable_thresholds hsplit

/-- Nobody has voted yet. -/
theorem elected_nil_iff (hself : r.selfAddr ∉ r.peers.keys) (hstable : r.configState = .stable) :
    r.Elected [] ↔ r.votesNeeded r.voters = 0 := by
  refine (elected_iff hself r.replies_nil).trans ?_
  show r.votesNeeded r.voters ≤ (∅ ∩ _ : Finset String).card ∧ _ ↔ _
  rw [Finset.empty_inter, Finset.card_empty, Nat.le_zero]
  exact and_iff_left fun hjoint => absurd hjoint (not_joint hstable)

theorem nonLearnerPeers_of_nil (h : r.peers.keys = []) : r.nonLearnerPeers = [] :=
  List.eq_nil_of_subset_nil (h ▸ r.nonLearnerPeers_subset)

/-- Without peers there are no replies to count. -/
theorem countsVotes_alone_iff (hpeers : r.peers.keys = []) : r.CountsVotes ↔ r.Elected [] := by
  have hreplies : ∀ replies, r.Replies replies → replies = [] := by
    intro replies h
    refine List.eq_nil_iff_forall_not_mem.mpr fun x hx => ?_
    have hmem := h.peers x hx
    rw [nonLearnerPeers_of_nil hpeers] at hmem
    exact List.not_mem_nil hmem
  constructor
  · intro hcounts
    exact (hcounts 0 [] r.replies_nil).mp
      ((elect_leader_iff r.replies_nil 0).mpr (Or.inl hpeers))
  · intro helected id replies h
    obtain rfl := hreplies replies h
    exact iff_of_true ((elect_leader_iff h id).mpr (Or.inl hpeers)) helected

end RaftNode

open RaftNode

/-- **Vote counting.** Take a node that does not list itself as a peer, which none ever does
(`Excludes`). In every order of
vote replies of its term, and at every moment, it leads iff the votes granted so far and its own
elect it, iff the thresholds of `startElection` agree with those of the definition. -/
theorem counts_votes_iff {r : RaftNode} (hself : r.selfAddr ∉ r.peers.keys) :
    r.CountsVotes ↔ r.QuorumsAgree := by
  by_cases hpeers : r.peers.keys = []
  · rw [countsVotes_alone_iff hpeers]
    constructor
    · exact fun h => ⟨fun _ => h, fun hne => absurd hpeers hne, fun hne => absurd hpeers hne⟩
    · exact fun h => h.1 hpeers
  cases hstate : r.configState with
  | stable =>
    have hzero : 0 < r.votesNeeded r.voters ↔ ¬ r.Elected [] := by
      rw [elected_nil_iff hself hstate, Nat.pos_iff_ne_zero]
    rw [countsVotes_stable_iff hself hpeers hstate, bringsAbout_stable_iff, hzero]
    constructor
    · refine fun h => ⟨fun hnil => absurd hnil hpeers, fun _ _ => h, fun _ hjoint => ?_⟩
      rw [hstate] at hjoint
      cases hjoint
    · exact fun h => h.2.1 hpeers hstate
  | joint =>
    rw [countsVotes_joint_iff hself hpeers hstate]
    constructor
    · refine fun h => ⟨fun hnil => absurd hnil hpeers, fun _ hstable => ?_, fun _ _ => h⟩
      rw [hstate] at hstable
      cases hstable
    · exact fun h => h.2.2 hpeers hstate

section traces

open scoped GrowthPolicy

/-- A node with two voting peers counts as it should. -/
theorem counts_votes_iff_three : (newRaftNode "a" ["b", "c"] "data" {}).CountsVotes :=
  (counts_votes_iff (by decide +kernel)).mpr (by decide +kernel)

/-- A request that makes a follower apply configuration entries. -/
def configRequest (entries : List LogEntry) : Event :=
  .appendEntries "b" 0
    { term := 1, leaderId := "b", prevLogIndex := 0, prevLogTerm := 0, entries := entries,
      leaderCommit := entries.length }

/-- **Elected, and not the leader.** `a` is alone with a learner: nobody is asked, and it stays a
candidate. And `a` campaigns in the joint state that adds `d`: with the votes of `b` and `c` it
has three of three and three of four, and stays a candidate. -/
theorem elected_not_leader :
    (∃ p : Proc, Run Proc.next (fun _ _ _ => True) (Proc.boot "a" [] "data" {}) p ∧
      p.node.peers.keys = ["b"] ∧ p.node.nonLearnerPeers = [] ∧ p.node.configState = .stable ∧
      p.node.Elected [] ∧ p.node.state = .candidate) ∧
    (∃ p : Proc, Run Proc.next (fun _ _ _ => True) (Proc.boot "a" ["b", "c"] "data" {}) p ∧
      p.node.configState = .joint ∧ p.node.nonLearnerPeers.length = 2 ∧
      p.node.Elected ["b", "c"] ∧ p.node.state = .candidate) := by
  constructor
  · exact exists_run_of_execWith
      [configRequest
        [{ term := 1, index := 1, type := .jointConsensus,
           config := some { oldPeers := ["a"], newPeers := ["a", "b"] } },
         { term := 1, index := 2, type := .confChange,
           config := some { oldPeers := [], newPeers := ["a", "b"] } }],
        .electionTimeout] (by decide +kernel)
  · exact exists_run_of_execWith
      [configRequest
        [{ term := 1, index := 1, type := .jointConsensus,
           config := some { oldPeers := ["a", "b", "c"], newPeers := ["a", "b", "c", "d"] } }],
        .electionTimeout, .voteReply 0 "b" { term := 2, voteGranted := true },
        .voteReply 0 "c" { term := 2, voteGranted := true }] (by decide +kernel)

end traces

end DistributedMQ.Raft
