import DistributedMQ.Raft.Election

/-!
# The tally of an election (`raft.go` lines 205–273)

The goroutines of an election handle one reply each, in any order. What they make of a sequence
of replies depends on the granted votes alone: the counters only grow, so it does not matter at
which of the votes they are looked at.

- `RaftNode.tally`: the node after a sequence of replies.
- `RaftNode.tally_leader_iff`: it leads iff some vote was granted and the granted votes pass.
-/

namespace DistributedMQ.Raft

/-- The peers that have granted their vote. -/
def granted (replies : List (String × RequestVoteReply)) : List String :=
  (replies.filter fun x => x.2.voteGranted).map Prod.fst

namespace RaftNode

/-- The vote goroutines of an election handle replies one after the other; each
handles one. -/
def tally : RaftNode → Election → List (String × RequestVoteReply) → RaftNode
  | r, _, [] => r
  | r, e, (peer, reply) :: replies =>
    if peer ∈ e.waiting then
      tally (r.handleVoteReply e peer reply).1 (r.handleVoteReply e peer reply).2 replies
    else tally r e replies

theorem nonLearnerPeers_subset (r : RaftNode) : r.nonLearnerPeers ⊆ r.peers.keys := by
  intro a ha
  obtain ⟨p, hp, rfl⟩ := List.mem_map.mp ha
  exact List.mem_map.mpr ⟨p, (List.mem_filter.mp hp).1, rfl⟩

theorem nodup_nonLearnerPeers (r : RaftNode) : r.nonLearnerPeers.Nodup :=
  r.peers.keys_nodup.sublist (List.filter_sublist.map _)

/-- A granted vote. -/
def grant (peer : String) : String × RequestVoteReply := (peer, { term := 0, voteGranted := true })

theorem map_fst_grant (L : List String) : (L.map grant).map Prod.fst = L := by
  rw [List.map_map]
  exact List.map_id L

end RaftNode

/-! ## Votes that are added -/

/-- The tally, with these votes added, has reached the quorum of its configuration. -/
def Election.Passes (e : Election) (r : RaftNode) (votes : List String) : Prop :=
  match e.configState with
  | .joint =>
    e.oldConfigCount / 2 + 1 ≤
        e.oldConfigVotes + votes.countP (fun p => r.currentConfig.get p false) ∧
      e.newConfigCount / 2 + 1 ≤ e.newConfigVotes + votes.countP r.inNewConfig
  | .stable => (e.nonLearnerPeers.length + 1) / 2 < e.votes + votes.length

namespace Election

variable {e : Election} {r : RaftNode} {peer : String} {votes : List String}

theorem passes_nil : e.Passes r [] ↔ e.won = true := by
  rw [Passes, won]
  cases e.configState with
  | joint =>
    rw [Bool.and_eq_true, decide_eq_true_iff, decide_eq_true_iff]
    rfl
  | stable => exact decide_eq_true_iff.symm

/-- A vote that is counted is one more vote. -/
theorem passes_count : (e.count r peer).Passes r votes ↔ e.Passes r (peer :: votes) := by
  rw [Passes, Passes, show (e.count r peer).configState = e.configState from rfl]
  cases hstate : e.configState with
  | joint =>
    dsimp only
    rw [List.countP_cons, List.countP_cons]
    simp only [count, hstate, true_and]
    refine and_congr ?_ ?_
    · split <;> omega
    · split <;> omega
  | stable =>
    dsimp only [count]
    rw [List.length_cons]
    omega

theorem Passes.cons (h : e.Passes r votes) (peer : String) : e.Passes r (peer :: votes) := by
  rw [Passes] at h ⊢
  cases hstate : e.configState with
  | joint =>
    rw [hstate] at h
    dsimp only at h ⊢
    rw [List.countP_cons, List.countP_cons]
    omega
  | stable =>
    rw [hstate] at h
    dsimp only at h ⊢
    rw [List.length_cons]
    omega

/-- A tally that has won stays so. -/
theorem passes_of_won (h : e.won = true) (votes : List String) : e.Passes r votes := by
  induction votes with
  | nil => exact passes_nil.mpr h
  | cons peer votes ih => exact ih.cons peer

end Election

theorem granted_cons_pos {x : String × RequestVoteReply} (h : x.2.voteGranted = true)
    (replies : List (String × RequestVoteReply)) :
    granted (x :: replies) = x.1 :: granted replies :=
  congrArg (List.map Prod.fst)
    (@List.filter_cons_of_pos _ (fun x : String × RequestVoteReply => x.2.voteGranted) x replies h)

theorem granted_cons_neg {x : String × RequestVoteReply} (h : ¬ x.2.voteGranted = true)
    (replies : List (String × RequestVoteReply)) : granted (x :: replies) = granted replies :=
  congrArg (List.map Prod.fst)
    (@List.filter_cons_of_neg _ (fun x : String × RequestVoteReply => x.2.voteGranted) x replies h)

namespace RaftNode

theorem granted_map_grant (L : List String) : granted (L.map grant) = L := by
  rw [granted, List.filter_eq_self.mpr]
  · exact map_fst_grant L
  · intro x hx
    obtain ⟨a, -, rfl⟩ := List.mem_map.mp hx
    rfl

variable {r : RaftNode} {e : Election} {replies : List (String × RequestVoteReply)}

/-- A leader stays one. -/
theorem tally_of_leader (hleader : r.state = .leader)
    (hterm : ∀ x ∈ replies, x.2.term ≤ r.currentTerm) : r.tally e replies = r := by
  induction replies generalizing e with
  | nil => rfl
  | cons x replies ih =>
    obtain ⟨hx, hrest⟩ := List.forall_mem_cons.mp hterm
    have hhandle : r.handleVoteReply e x.1 x.2 = (r, { e with waiting := e.waiting.erase x.1 }) := by
      rw [handleVoteReply, if_neg (not_lt.mpr hx), if_neg]
      rintro ⟨hcand, -⟩
      rw [hleader] at hcand
      cases hcand
    rw [tally, hhandle]
    split
    · exact ih hrest
    · exact ih hrest

/-- **Run.** After a sequence of replies, one of each peer, the candidate leads iff some vote has
been granted and the votes pass. -/
theorem tally_leader_iff (hcand : r.state = .candidate) (heq : r.currentTerm = e.term)
    (hterm : ∀ x ∈ replies, x.2.term ≤ r.currentTerm) (hnodup : (replies.map Prod.fst).Nodup)
    (hwaiting : replies.map Prod.fst ⊆ e.waiting) :
    (r.tally e replies).state = .leader ↔
      granted replies ≠ [] ∧ e.Passes r (granted replies) := by
  induction replies generalizing e with
  | nil =>
    refine iff_of_false ?_ fun h => h.1 rfl
    show r.state ≠ .leader
    rw [hcand]
    decide
  | cons x replies ih =>
    obtain ⟨hx, hrest⟩ := List.forall_mem_cons.mp hterm
    obtain ⟨hfresh, hnodup⟩ := List.nodup_cons.mp hnodup
    obtain ⟨hpeer, hwaiting⟩ := List.cons_subset.mp hwaiting
    -- the goroutines of the other peers still wait
    have herase : replies.map Prod.fst ⊆ e.waiting.erase x.1 := by
      intro a ha
      have hne : a ≠ x.1 := fun h => hfresh (h ▸ ha)
      exact (List.mem_erase_of_ne hne).mpr (hwaiting ha)
    rw [tally, if_pos hpeer, handleVoteReply, if_neg (not_lt.mpr hx)]
    by_cases hvote : x.2.voteGranted = true
    · rw [if_pos ⟨hcand, heq, hvote⟩, granted_cons_pos hvote]
      have hcount : ({ e with waiting := e.waiting.erase x.1 }.count r x.1).Passes r
          (granted replies) ↔ e.Passes r (x.1 :: granted replies) := Election.passes_count
      by_cases hwon : ({ e with waiting := e.waiting.erase x.1 }.count r x.1).won = true
      · -- it leads from here on
        rw [if_pos hwon]
        have hleads := @tally_of_leader r.becomeLeader
          ({ e with waiting := e.waiting.erase x.1 }.count r x.1) replies rfl hrest
        refine iff_of_true ?_ ⟨List.cons_ne_nil _ _, hcount.mp ?_⟩
        · exact (congrArg RaftNode.state hleads).trans rfl
        · exact Election.passes_of_won hwon _
      · rw [if_neg hwon]
        refine (ih (e := { e with waiting := e.waiting.erase x.1 }.count r x.1) heq hrest hnodup
          herase).trans ?_
        rw [hcount]
        refine and_congr_left fun hpasses => iff_of_true ?_ (List.cons_ne_nil _ _)
        intro hnil
        rw [hnil, ← Election.passes_count, Election.passes_nil] at hpasses
        exact hwon hpasses
    · rw [if_neg (fun h => hvote h.2.2), granted_cons_neg hvote]
      exact ih (e := { e with waiting := e.waiting.erase x.1 }) heq hrest hnodup herase

end RaftNode

end DistributedMQ.Raft
