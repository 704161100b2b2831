import DistributedMQ.Raft.Views

/-!
# Deliveries of one leader's requests (`raft.go` lines 367–404 and 938–980)

While a node leads in term `T` its log only grows. Every `AppendEntries` request it sends has the
entries of its log behind `prevLogIndex`, to the end the log has then, and a commit index inside
of it (`Sent`). A follower may get the requests in any order, some of them twice and some not at
all.

The follower takes its commit index from the length of its own log, not from the entries it has
just checked. This is sound only because a request has everything up to the end.

- `sent_of_sendAppendEntries`: the requests are of this shape.
- `Follows`: what holds between the follower and the leader's log.
- `deliveries_safe`: it holds after every delivery, the commit index does not go back, and
  nothing up to it is removed.
-/

namespace DistributedMQ.Raft

open TermLog

/-- A request of a leader whose log is `L` in the end: the log had the last index `last` when it
was sent. -/
structure Sent (L : List LogEntry) where
  leaderId : String
  prevLogIndex : ℕ
  last : ℕ
  leaderCommit : ℕ
  prevLogIndex_le : prevLogIndex ≤ last
  last_lt : last < L.length
  leaderCommit_le : leaderCommit ≤ last

/-- The request of a leader in term `T`. -/
def Sent.args {L : List LogEntry} (q : Sent L) (T : ℕ) : AppendEntriesArgs where
  term := T
  leaderId := q.leaderId
  prevLogIndex := q.prevLogIndex
  prevLogTerm :=
    if q.prevLogIndex > 0 then (L[q.prevLogIndex]?.map LogEntry.term).getD 0 else 0
  entries := (L.take (q.last + 1)).drop (q.prevLogIndex + 1)
  leaderCommit := q.leaderCommit

/-- A follower, and the last indices of the requests it has accepted. -/
structure Receiver where
  node : RaftNode
  acked : List ℕ := []

section

variable [GrowthPolicy] {L : List LogEntry} {T : ℕ}

/-- A request is delivered. -/
def Receiver.deliver (T : ℕ) (f : Receiver) (q : Sent L) : Receiver :=
  let (node, reply) := f.node.appendEntries (q.args T)
  { node, acked := if reply.success then f.acked ++ [q.last] else f.acked }

/-- Some requests are delivered, one after the other. -/
def RaftNode.receive (T : ℕ) (r : RaftNode) (delivered : List (Sent L)) : Receiver :=
  delivered.foldl (Receiver.deliver T) { node := r }

omit [GrowthPolicy] in
theorem RaftNode.nextIdx_pos (r : RaftNode) (peer : String) : 0 < r.nextIdx peer := by
  unfold nextIdx
  split <;> omega

omit [GrowthPolicy] in
/-- **Requests.** What `sendAppendEntries` puts on the wire is such a request. -/
theorem sent_of_sendAppendEntries {r : RaftNode} {peer : String} {id : ℕ} {c : AppendCall}
    (hlog : r.log.elems <+: L) (hcommit : r.commitIndex < r.log.len)
    (h : (r.sendAppendEntries peer id).2 = .request c) :
    ∃ q : Sent L, q.args r.currentTerm = r.marshal c ∧ q.last = r.lastIndex := by
  have hpos := r.nextIdx_pos peer
  have hle : r.log.len ≤ L.length := hlog.length_le
  unfold RaftNode.sendAppendEntries at h
  split at h
  · dsimp only [RaftNode.sendOutcome] at h
    split at h
    · cases h
    split at h
    · cases h
    rename_i hlen
    obtain rfl := SendOutcome.request.inj h
    let q : Sent L :=
      { leaderId := r.selfAddr
        prevLogIndex := r.nextIdx peer - 1
        last := r.lastIndex
        leaderCommit := r.commitIndex
        prevLogIndex_le := by unfold RaftNode.lastIndex; omega
        last_lt := by unfold RaftNode.lastIndex; omega
        leaderCommit_le := by unfold RaftNode.lastIndex; omega }
    refine ⟨q, ?_, rfl⟩
    -- the leader's log is a front part of `L`
    have hterm : (L[r.nextIdx peer - 1]?.map LogEntry.term).getD 0 =
        r.termAt (r.nextIdx peer - 1) := by
      have hlt : r.nextIdx peer - 1 < r.log.elems.length := by
        show r.nextIdx peer - 1 < r.log.len
        omega
      have helem := getElem?_of_prefix hlog (List.getElem?_eq_getElem hlt)
      rw [RaftNode.termAt, helem, List.getElem?_eq_getElem hlt]
    have hentries : (L.take (r.lastIndex + 1)).drop (r.nextIdx peer - 1 + 1) =
        r.log.read (r.log.view (r.nextIdx peer)) := by
      have hlast : r.lastIndex + 1 = r.log.elems.length := by
        unfold RaftNode.lastIndex
        show r.log.len - 1 + 1 = r.log.len
        omega
      rw [GoSlice.read_view, hlast, ← List.prefix_iff_eq_take.mp hlog, Nat.sub_add_cancel hpos]
    rw [Sent.args, RaftNode.marshal, hterm, hentries]
  · cases h

/-- The follower is not ahead of term `T`, its log matches the leader's, and agrees with it up to
the commit index and to the last index of every request that was accepted. -/
structure Follows (L : List LogEntry) (T : ℕ) (f : Receiver) : Prop where
  term : f.node.currentTerm ≤ T
  matching : Matching LogEntry.term f.node.log.elems L
  committed : Agree f.node.log.elems L f.node.commitIndex
  acked : ∀ e ∈ f.acked, Agree f.node.log.elems L e

namespace RaftNode

theorem acceptEntries_commitIndex (r : RaftNode) (args : AppendEntriesArgs) :
    (r.acceptEntries args).commitIndex =
      if args.leaderCommit > r.commitIndex then
        min args.leaderCommit ((r.acceptEntries args).log.len - 1)
      else r.commitIndex := by
  rw [acceptEntries_log]
  unfold acceptEntries
  dsimp only
  rw [saveState_commitIndex]
  split
  · obtain ⟨la, ch, ps, isr, ni, mi, cc, nc, cs, h⟩ := applyLoop_shape _ _
    rw [applyCommittedEntries, h]
  · rfl

/-- The reply and the follower have the term of the request. -/
theorem appendEntries_term {r : RaftNode} {args : AppendEntriesArgs}
    (h : r.currentTerm ≤ args.term) :
    (r.appendEntries args).2.term = args.term ∧
      (r.appendEntries args).1.currentTerm = args.term := by
  have hterm := observeTerm_currentTerm h
  unfold appendEntries
  rw [if_neg (not_lt.mpr h)]
  dsimp only
  split
  · exact ⟨hterm, hterm⟩
  split
  · exact ⟨hterm, hterm⟩
  · rw [acceptEntries_currentTerm]
    exact ⟨hterm, hterm⟩

theorem appendEntries_refuse_commitIndex {r : RaftNode} {args : AppendEntriesArgs}
    (h : ¬ r.Accepts args) : (r.appendEntries args).1.commitIndex = r.commitIndex := by
  rcases (appendEntries_refuse_node h).1 with hnode | hnode
  · rw [hnode]
  · rw [hnode, observeTerm_commitIndex]

end RaftNode

omit [GrowthPolicy] in
/-- What an accepted request says about the two logs. The entry at index 0 is not checked. -/
theorem agree_of_accepts {r : RaftNode} {args : AppendEntriesArgs}
    (hmatching : Matching LogEntry.term r.log.elems L) (hhead : Agree r.log.elems L 0)
    (hlt : args.prevLogIndex < L.length)
    (hterm : 0 < args.prevLogIndex →
      args.prevLogTerm = (L[args.prevLogIndex]?.map LogEntry.term).getD 0)
    (haccepts : r.Accepts args) : Agree r.log.elems L args.prevLogIndex := by
  obtain ⟨-, hlt', hcheck⟩ := haccepts
  rcases Nat.eq_zero_or_pos args.prevLogIndex with hzero | hpos
  · rw [hzero]
    exact hhead
  have heq := hcheck.resolve_left hpos.ne'
  have hF : args.prevLogIndex < r.log.elems.length := hlt'
  refine hmatching.agree (List.getElem?_eq_getElem hF) (List.getElem?_eq_getElem hlt) ?_
  rwa [RaftNode.termAt, hterm hpos, List.getElem?_eq_getElem hF, List.getElem?_eq_getElem hlt]
    at heq

/-- The entries of a log after a request has been accepted. -/
theorem elems_accept (r : RaftNode) (args : AppendEntriesArgs) :
    ((r.observeTerm args.term).acceptEntries args).log.elems =
      splice LogEntry.term r.log.elems (args.prevLogIndex + 1) args.entries := by
  rw [RaftNode.acceptEntries_log, RaftNode.observeTerm_log, GoSlice.elems_splice]

/-- The log after a request with all entries up to `last` has been accepted. -/
theorem accept_agree {r : RaftNode} {args : AppendEntriesArgs} {last : ℕ}
    (hmatching : Matching LogEntry.term r.log.elems L)
    (hprev : Agree r.log.elems L args.prevLogIndex) (hle : args.prevLogIndex ≤ last)
    (hlast : last < L.length)
    (hentries : args.entries = (L.take (last + 1)).drop (args.prevLogIndex + 1)) :
    Matching LogEntry.term ((r.observeTerm args.term).acceptEntries args).log.elems L ∧
      Agree ((r.observeTerm args.term).acceptEntries args).log.elems L last ∧
      ∀ i, Agree r.log.elems L i →
        Agree ((r.observeTerm args.term).acceptEntries args).log.elems L i := by
  rw [elems_accept, hentries]
  exact splice_agree hmatching hprev hle hlast

/-- The commit index after an accepted request is the leader's or the old one. -/
theorem commitIndex_accept {r : RaftNode} {q : Sent L}
    (hagree : Agree (r.acceptEntries (q.args T)).log.elems L q.last) :
    (r.acceptEntries (q.args T)).commitIndex = max r.commitIndex q.leaderCommit := by
  obtain ⟨a, ha, -⟩ := hagree q.last (Nat.le_refl _)
  have hlen : q.last < (r.acceptEntries (q.args T)).log.len :=
    (List.getElem?_eq_some_iff.mp ha).1
  have hcommit := q.leaderCommit_le
  have hargs : (q.args T).leaderCommit = q.leaderCommit := rfl
  rw [RaftNode.acceptEntries_commitIndex, hargs]
  split
  · rw [Nat.min_eq_left (by omega), Nat.max_eq_right (by omega)]
  · rw [Nat.max_eq_left (by omega)]

theorem deliver_accept {f : Receiver} {q : Sent L} (h : f.node.Accepts (q.args T)) :
    f.deliver T q =
      { node := (f.node.observeTerm (q.args T).term).acceptEntries (q.args T)
        acked := f.acked ++ [q.last] } := by
  rw [Receiver.deliver, RaftNode.appendEntries_accept h]
  rfl

theorem deliver_refuse {f : Receiver} {q : Sent L}
    (h : (f.node.appendEntries (q.args T)).2.success = false) :
    f.deliver T q = { node := (f.node.appendEntries (q.args T)).1, acked := f.acked } := by
  show Receiver.mk _ (if (f.node.appendEntries (q.args T)).2.success = true then _ else _) = _
  rw [h]
  rfl

/-- A delivery, late or repeated, leaves the committed entries and never lowers the commit index. -/
theorem Follows.deliver {f : Receiver} (h : Follows L T f) (q : Sent L) :
    Follows L T (f.deliver T q) ∧ f.node.commitIndex ≤ (f.deliver T q).node.commitIndex ∧
      ∀ j ≤ f.node.commitIndex,
        (f.deliver T q).node.log.elems[j]? = f.node.log.elems[j]? := by
  by_cases haccepts : f.node.Accepts (q.args T)
  -- an accepted request makes the logs agree up to its last index
  · have hprev : Agree f.node.log.elems L q.prevLogIndex :=
      agree_of_accepts h.matching (h.committed.mono (Nat.zero_le _))
        (q.prevLogIndex_le.trans_lt q.last_lt) (fun hpos => if_pos hpos) haccepts
    obtain ⟨hmatching, hlast, hkept⟩ :=
      @accept_agree _ L f.node (q.args T) q.last h.matching hprev q.prevLogIndex_le q.last_lt rfl
    have hcommit := commitIndex_accept hlast
    rw [RaftNode.observeTerm_commitIndex] at hcommit
    rw [deliver_accept haccepts]
    refine ⟨⟨?_, hmatching, ?_, ?_⟩, ?_, ?_⟩
    · rw [RaftNode.acceptEntries_currentTerm]
      exact (RaftNode.observeTerm_currentTerm h.term).le
    · rw [hcommit]
      rcases max_choice f.node.commitIndex q.leaderCommit with heq | heq
      · rw [heq]
        exact hkept _ h.committed
      · rw [heq]
        exact hlast.mono q.leaderCommit_le
    · intro e he
      rcases List.mem_append.mp he with he | he
      · exact hkept e (h.acked e he)
      · rw [List.mem_singleton.mp he]
        exact hlast
    · rw [hcommit]
      exact le_max_left _ _
    · exact fun j hj => h.committed.getElem?_eq (hkept _ h.committed) hj
  · -- a refused request changes at most the term
    obtain ⟨hlog, hreply⟩ := RaftNode.appendEntries_refuse haccepts
    have hcommit := RaftNode.appendEntries_refuse_commitIndex haccepts
    have hterm : (f.node.appendEntries (q.args T)).1.currentTerm = T :=
      (RaftNode.appendEntries_term h.term).2
    rw [deliver_refuse hreply]
    refine ⟨⟨hterm.le, ?_, ?_, ?_⟩, ?_, ?_⟩
    · rw [hlog]
      exact h.matching
    · rw [hlog, hcommit]
      exact h.committed
    · rw [hlog]
      exact h.acked
    · rw [hcommit]
    · intro j _
      rw [hlog]

/-- The follower goes on following, whatever is delivered. -/
theorem Follows.foldl {f : Receiver} (h : Follows L T f) (delivered : List (Sent L)) :
    Follows L T (delivered.foldl (Receiver.deliver T) f) := by
  induction delivered generalizing f with
  | nil => exact h
  | cons q delivered ih => exact ih (h.deliver q).1

/-- **Any order.** A follower whose log matches the leader's and agrees with it up to its commit
index gets requests of that leader in any order, with losses and duplicates. After each delivery
its log agrees with the leader's up to the last index of every request that was accepted, and up
to its commit index; the commit index has not gone back, and the entries up to it are still
there. -/
theorem deliveries_safe {r : RaftNode} (hmatching : Matching LogEntry.term r.log.elems L)
    (hcommitted : Agree r.log.elems L r.commitIndex) (hterm : r.currentTerm ≤ T)
    (delivered : List (Sent L)) (q : Sent L) :
    (∀ e ∈ ((r.receive T delivered).deliver T q).acked,
        Agree ((r.receive T delivered).deliver T q).node.log.elems L e) ∧
      (r.receive T delivered).node.commitIndex ≤
        ((r.receive T delivered).deliver T q).node.commitIndex ∧
      (∀ j ≤ (r.receive T delivered).node.commitIndex,
        ((r.receive T delivered).deliver T q).node.log.elems[j]? =
          (r.receive T delivered).node.log.elems[j]?) ∧
      Agree ((r.receive T delivered).deliver T q).node.log.elems L
        ((r.receive T delivered).deliver T q).node.commitIndex := by
  have hstart : Follows L T { node := r } :=
    ⟨hterm, hmatching, hcommitted, fun _ he => absurd he List.not_mem_nil⟩
  obtain ⟨hfollows, hmono, hkept⟩ := (hstart.foldl delivered).deliver q
  exact ⟨hfollows.acked, hmono, hkept, hfollows.committed⟩

end

section

open scoped GrowthPolicy

/-- The log of a leader of term 2. -/
def leaderLog : List LogEntry := [sentinel, { term := 1, index := 1 }, { term := 2, index := 2 }]

/-- A follower with leftover entries of term 1. -/
def leftoverLog : List LogEntry :=
  [sentinel, { term := 1, index := 1 }, { term := 1, index := 2 }, { term := 1, index := 3 }]

theorem matching_leftoverLog : Matching LogEntry.term leftoverLog leaderLog := by
  intro i a b ha hb hterm
  rcases i with _ | _ | _ | i
  · rfl
  · rfl
  · cases ha
    cases hb
    cases hterm
  · cases hb

/-- A new node with these entries. -/
def nodeWith (log : List LogEntry) : RaftNode :=
  { newRaftNode "b" ["a"] "data" {} with log := GoSlice.ofList log }

/-- All of the leader's log, and a request from before its last entry. -/
def wholeLog : Sent leaderLog :=
  { leaderId := "a", prevLogIndex := 0, last := 2, leaderCommit := 1,
    prevLogIndex_le := by decide, last_lt := by decide, leaderCommit_le := by decide }

def staleRequest : Sent leaderLog :=
  { leaderId := "a", prevLogIndex := 0, last := 1, leaderCommit := 0,
    prevLogIndex_le := by decide, last_lt := by decide, leaderCommit_le := by decide }

/-- The stale request comes last. -/
theorem deliveries_safe_stale :
    2 ∈ (((nodeWith leftoverLog).receive 2 [wholeLog]).deliver 2 staleRequest).acked ∧
      Agree (((nodeWith leftoverLog).receive 2 [wholeLog]).deliver 2 staleRequest).node.log.elems
        leaderLog 2 := by
  have hagree : Agree (nodeWith leftoverLog).log.elems leaderLog
      (nodeWith leftoverLog).commitIndex := by
    have hzero : (nodeWith leftoverLog).commitIndex = 0 := by decide +kernel
    rw [hzero]
    exact fun j hj => ⟨sentinel, by rw [Nat.le_zero.mp hj]; exact ⟨rfl, rfl⟩⟩
  have hacked : 2 ∈
      (((nodeWith leftoverLog).receive 2 [wholeLog]).deliver 2 staleRequest).acked := by
    decide +kernel
  exact ⟨hacked, (deliveries_safe matching_leftoverLog hagree (by decide +kernel) [wholeLog]
    staleRequest).1 2 hacked⟩

end

end DistributedMQ.Raft
