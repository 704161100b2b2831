import DistributedMQ.Raft.Deliveries
import DistributedMQ.Raft.MatchIndex

/-!
# Finding the point where two logs part (`raft.go` lines 367–431 and 938–980)

A leader that does not know how much of its log a follower has sends the entries from
`nextIndex` on. If the entry in front of them is not there, `nextIndex` goes back by one and the
leader sends again, in a goroutine of its own. At `nextIndex` 1 nothing is checked.

The exchange here takes the branch with the `AppendEntries` request. `sendAppendEntries` chooses
the snapshot instead if the follower is more than 1000 entries behind
(`sendAppendEntries_eq`).

- `exchange_accept`, `exchange_refuse`: what a round does.
- `backtracking_converges`: from `nextIndex = k` at most `k` rounds are needed, and then the
  follower has the leader's log.
-/

namespace DistributedMQ.Raft

open TermLog

namespace RaftNode

/-- The request for the entries from `nextIndex` on. -/
def appendCall (r : RaftNode) (peer : String) (id : ℕ) : AppendCall where
  id := id
  peer := peer
  term := r.currentTerm
  leaderId := r.selfAddr
  prevLogIndex := r.nextIdx peer - 1
  prevLogTerm := if r.nextIdx peer - 1 > 0 then r.termAt (r.nextIdx peer - 1) else 0
  entries := r.log.view (r.nextIdx peer)
  leaderCommit := r.commitIndex

/-- A leader sends it, unless the follower is too far behind. -/
theorem sendAppendEntries_eq {r : RaftNode} {peer : String} (hleader : r.state = .leader)
    (hlen : r.nextIdx peer ≤ r.log.len) (hnear : ¬ r.nextIdx peer < sub64 r.log.len 1000)
    (id : ℕ) :
    r.sendAppendEntries peer id = (r.normalizeNext peer, .request (r.appendCall peer id)) := by
  rw [sendAppendEntries, if_pos hleader]
  dsimp only [sendOutcome]
  rw [if_neg hnear, if_neg (not_lt.mpr hlen)]
  rfl

end RaftNode

section

variable [GrowthPolicy] (peer : String) (id : ℕ)

/-- A leader and a follower. -/
structure Pair where
  leader : RaftNode
  follower : RaftNode

/-- A round: the request is sent, handled and answered, and the reply is handled. The flag is
`reply.Success`. -/
def Pair.exchange (p : Pair) : Pair × Bool :=
  let call := p.leader.appendCall peer id
  let res := p.follower.appendEntries (p.leader.marshal call)
  ({ leader := (p.leader.normalizeNext peer).handleAppendReply call res.2
     follower := res.1 }, res.2.success)

/-- Rounds until one succeeds; `none` if none of the first `n` does. -/
def Pair.replicate : ℕ → Pair → Option Pair
  | 0, _ => none
  | n + 1, p =>
    match p.exchange peer id with
    | (p', true) => some p'
    | (p', false) => Pair.replicate n p'

variable {peer id} {p : Pair} {k : ℕ}

theorem replicate_of_success (h : (p.exchange peer id).2 = true) (n : ℕ) :
    p.replicate peer id (n + 1) = some (p.exchange peer id).1 := by
  rw [Pair.replicate]
  split
  · rename_i heq
    rw [heq]
  · rename_i heq
    rw [heq] at h
    cases h

theorem replicate_of_failure (h : (p.exchange peer id).2 = false) (n : ℕ) :
    p.replicate peer id (n + 1) = (p.exchange peer id).1.replicate peer id n := by
  rw [Pair.replicate]
  split
  · rename_i heq
    rw [heq] at h
    cases h
  · rename_i heq
    rw [heq]

/-- `nextIndex` is `k`, and inside of the leader's log or just behind it. -/
structure Probing (peer : String) (k : ℕ) (p : Pair) : Prop where
  leader : p.leader.state = .leader
  term : p.follower.currentTerm ≤ p.leader.currentTerm
  matching : Matching LogEntry.term p.follower.log.elems p.leader.log.elems
  head : Agree p.follower.log.elems p.leader.log.elems 0
  next : p.leader.nextIndex.get peer 0 = k
  pos : 0 < k
  le : k ≤ p.leader.log.len

omit [GrowthPolicy] in
theorem Probing.nextIdx (h : Probing peer k p) : p.leader.nextIdx peer = k := by
  have hk := h.pos
  rw [RaftNode.nextIdx, h.next, if_neg (by omega)]

omit [GrowthPolicy] in
theorem Probing.normalizeNext (h : Probing peer k p) :
    p.leader.normalizeNext peer = p.leader := by
  have hk := h.pos
  rw [RaftNode.normalizeNext, h.next, if_neg (by omega)]

/-- The request of a round. -/
abbrev Pair.args (p : Pair) (peer : String) (id : ℕ) : AppendEntriesArgs :=
  p.leader.marshal (p.leader.appendCall peer id)

omit [GrowthPolicy] in
theorem Probing.prevLogIndex (h : Probing peer k p) (id : ℕ) :
    (p.args peer id).prevLogIndex = k - 1 := by
  show p.leader.nextIdx peer - 1 = k - 1
  rw [h.nextIdx]

omit [GrowthPolicy] in
theorem Probing.entries (h : Probing peer k p) (id : ℕ) :
    (p.args peer id).entries = p.leader.log.elems.drop k := by
  show p.leader.log.read (p.leader.log.view (p.leader.nextIdx peer)) = _
  rw [GoSlice.read_view, h.nextIdx]

omit [GrowthPolicy] in
theorem Probing.agree_of_accepts (h : Probing peer k p)
    (haccepts : p.follower.Accepts (p.args peer id)) :
    Agree p.follower.log.elems p.leader.log.elems (p.args peer id).prevLogIndex := by
  have hprev := h.prevLogIndex id
  have hlt : (p.args peer id).prevLogIndex < p.leader.log.elems.length := by
    have hk := h.pos
    have hle : k ≤ p.leader.log.elems.length := h.le
    omega
  exact Raft.agree_of_accepts h.matching h.head hlt (fun hpos => if_pos hpos) haccepts

/-- The request has all entries from `nextIndex` on, so the follower has all of them. -/
theorem Probing.agree_of_round (h : Probing peer k p)
    (haccepts : p.follower.Accepts (p.args peer id)) :
    Agree (p.follower.appendEntries (p.args peer id)).1.log.elems p.leader.log.elems
      (p.leader.log.len - 1) := by
  have hk := h.pos
  have hle := h.le
  have hprev := h.prevLogIndex id
  have hlen : p.leader.log.elems.length = p.leader.log.len := rfl
  have hentries : (p.args peer id).entries =
      (p.leader.log.elems.take (p.leader.log.len - 1 + 1)).drop
        ((p.args peer id).prevLogIndex + 1) := by
    rw [h.entries, hprev, Nat.sub_add_cancel hk, List.take_of_length_le (by omega)]
  rw [RaftNode.appendEntries_accept haccepts]
  exact (accept_agree h.matching (h.agree_of_accepts haccepts) (by omega) (by omega)
    hentries).2.1

theorem Probing.reply_term (h : Probing peer k p) (id : ℕ) :
    (p.follower.appendEntries (p.args peer id)).2.term = p.leader.currentTerm ∧
      (p.follower.appendEntries (p.args peer id)).1.currentTerm = p.leader.currentTerm :=
  RaftNode.appendEntries_term h.term

theorem exchange_eq (h : Probing peer k p) (id : ℕ) :
    p.exchange peer id =
      ({ leader := p.leader.handleAppendReply (p.leader.appendCall peer id)
           (p.follower.appendEntries (p.args peer id)).2
         follower := (p.follower.appendEntries (p.args peer id)).1 },
        (p.follower.appendEntries (p.args peer id)).2.success) := by
  rw [Pair.exchange, h.normalizeNext]

/-- A round that succeeds gives the follower the leader's log and the leader the matching
indices. -/
theorem exchange_accept (h : Probing peer k p) (haccepts : p.follower.Accepts (p.args peer id)) :
    (p.exchange peer id).2 = true ∧
      (p.exchange peer id).1.leader.log = p.leader.log ∧
      Agree (p.exchange peer id).1.follower.log.elems p.leader.log.elems (p.leader.log.len - 1) ∧
      (p.exchange peer id).1.leader.nextIndex.get peer 0 = p.leader.log.len ∧
      (p.exchange peer id).1.leader.matchIndex.get peer 0 = p.leader.log.len - 1 := by
  have hk := h.pos
  have hle := h.le
  have hreply := h.reply_term id
  have hsuccess : (p.follower.appendEntries (p.args peer id)).2.success = true := by
    rw [RaftNode.appendEntries_accept haccepts]
  obtain ⟨n, pc, cc, hshape⟩ := RaftNode.commitLoop_shape p.leader.log.len
    { p.leader with
      nextIndex := p.leader.nextIndex.insert peer
        (p.leader.nextIdx peer - 1 + (p.leader.log.len - p.leader.nextIdx peer) + 1)
      matchIndex := p.leader.matchIndex.insert peer
        (p.leader.nextIdx peer - 1 + (p.leader.log.len - p.leader.nextIdx peer)) }
  have hleader : p.leader.handleAppendReply (p.leader.appendCall peer id)
      (p.follower.appendEntries (p.args peer id)).2 = _ :=
    (RaftNode.handleAppendReply_ack hreply.1.le h.leader hsuccess).trans hshape
  rw [exchange_eq h, hsuccess, hleader]
  refine ⟨rfl, rfl, h.agree_of_round haccepts, ?_, ?_⟩
  · show GoMap.get (p.leader.nextIndex.insert peer _) peer 0 = _
    rw [GoMap.get_insert_self, h.nextIdx]
    omega
  · show GoMap.get (p.leader.matchIndex.insert peer _) peer 0 = _
    rw [GoMap.get_insert_self, h.nextIdx]
    omega

/-- **A round that fails.** It was not about the first entry, and `nextIndex` goes back. -/
theorem exchange_refuse (h : Probing peer k p) (hrefuse : ¬ p.follower.Accepts (p.args peer id)) :
    (p.exchange peer id).2 = false ∧ (p.exchange peer id).1.leader.log = p.leader.log ∧
      Probing peer (k - 1) (p.exchange peer id).1 := by
  have hk := h.pos
  have hle := h.le
  -- a request from the first entry on is accepted
  have hone : 1 < k := by
    by_contra hno
    refine hrefuse ⟨h.term, ?_, Or.inl ?_⟩
    · obtain ⟨a, ha, -⟩ := h.head 0 (Nat.le_refl 0)
      have hlen : 0 < p.follower.log.elems.length := (List.getElem?_eq_some_iff.mp ha).1
      show (p.args peer id).prevLogIndex < p.follower.log.elems.length
      rw [h.prevLogIndex]
      omega
    · rw [h.prevLogIndex]
      omega
  obtain ⟨hlog, hfail⟩ := RaftNode.appendEntries_refuse hrefuse
  have hreply := h.reply_term id
  have hleader : p.leader.handleAppendReply (p.leader.appendCall peer id)
      (p.follower.appendEntries (p.args peer id)).2 =
        { p.leader with nextIndex := p.leader.nextIndex.insert peer (k - 1) } := by
    have hterm : ¬ (p.follower.appendEntries (p.args peer id)).2.term > p.leader.currentTerm :=
      not_lt.mpr hreply.1.le
    have hnext : p.leader.nextIndex.get (p.leader.appendCall peer id).peer 0 = k := h.next
    rw [RaftNode.handleAppendReply, if_neg hterm, if_neg (not_not.mpr h.leader), hfail,
      if_neg (by decide), hnext, if_pos hone]
    rfl
  rw [exchange_eq h, hfail, hleader]
  refine ⟨rfl, rfl, ⟨h.leader, hreply.2.le, ?_, ?_, ?_, by omega, ?_⟩⟩
  · show Matching LogEntry.term (p.follower.appendEntries (p.args peer id)).1.log.elems _
    rw [hlog]
    exact h.matching
  · show Agree (p.follower.appendEntries (p.args peer id)).1.log.elems _ 0
    rw [hlog]
    exact h.head
  · exact GoMap.get_insert_self _ _ _ _
  · show k - 1 ≤ p.leader.log.len
    omega

/-- **Backtracking.** A leader starts with `nextIndex = k` inside of its log or just behind it,
with a follower whose log matches its own and starts with the same sentinel. At most `k`
rounds are needed. Then the follower has the leader's entry at every index of the leader's log,
and `nextIndex` and `matchIndex` are at its end. -/
theorem backtracking_converges (h : Probing peer k p) (id : ℕ) :
    ∃ p', p.replicate peer id k = some p' ∧ p'.leader.log = p.leader.log ∧
      (∀ i < p.leader.log.len, p'.follower.log.elems[i]? = p.leader.log.elems[i]?) ∧
      p'.leader.nextIndex.get peer 0 = p.leader.log.len ∧
      p'.leader.matchIndex.get peer 0 = p.leader.log.len - 1 := by
  -- every refused request leaves the pair one index further back
  induction k generalizing p with
  | zero => exact absurd h.pos (Nat.lt_irrefl 0)
  | succ n ih =>
    by_cases haccepts : p.follower.Accepts (p.args peer id)
    · obtain ⟨hsuccess, hlog, hagree, hnext, hmatch⟩ := exchange_accept h haccepts
      refine ⟨(p.exchange peer id).1, replicate_of_success hsuccess n, hlog, ?_, hnext, hmatch⟩
      intro i hi
      obtain ⟨a, hfollower, hleader⟩ := hagree i (by omega)
      rw [hfollower, hleader]
    · obtain ⟨hfail, hlog, hprobing⟩ := exchange_refuse h haccepts
      obtain ⟨p', hrounds, hrest⟩ := ih hprobing
      rw [hlog] at hrest
      exact ⟨p', (replicate_of_failure hfail n).trans hrounds, hrest⟩

end

section

open scoped GrowthPolicy

/-- The leader of term 2 and the follower with leftover entries, as after the election. -/
def elected : Pair where
  leader := { nodeWith leaderLog with
    state := .leader, currentTerm := 2, nextIndex := AList.insert "b" 3 ∅ }
  follower := nodeWith leftoverLog

/-- The follower has another entry at index 2, so two rounds are needed. -/
theorem backtracking_converges_leftover :
    (elected.exchange "b" 0).2 = false ∧
      ∃ p', elected.replicate "b" 0 3 = some p' ∧ p'.leader.matchIndex.get "b" 0 = 2 := by
  have hprobing : Probing "b" 3 elected :=
    { leader := rfl
      term := by decide +kernel
      matching := matching_leftoverLog
      head := fun j hj => ⟨sentinel, by rw [Nat.le_zero.mp hj]; exact ⟨rfl, rfl⟩⟩
      next := by decide +kernel
      pos := by decide
      le := by decide +kernel }
  obtain ⟨p', hrounds, -, -, -, hmatch⟩ := backtracking_converges hprobing 0
  exact ⟨by decide +kernel, p', hrounds, hmatch⟩

end

end DistributedMQ.Raft
