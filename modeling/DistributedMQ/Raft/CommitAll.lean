import DistributedMQ.Raft.CommitQuorum
import Mathlib.Order.Bounds.Basic

/-!
# What a leader may commit and what it commits (`raft.go` lines 408–489 and 1133–1147)

A leader may commit an entry of its own term that a majority has, and with it everything before.
`updateCommitIndex` walks up from the commit index and stops at the first entry of another term:
what an earlier leader has left behind is never jumped over. The reply to a snapshot records the
acknowledgement and does not look at the commit index at all.

- `Committable`: an index the leader may commit; `CommitsAll`: the commit index is the greatest
  one, or the old one.
- `commitLoop_reaches`: the loop comes as far as all entries are of the leader's term and counted.
- `commits_all_iff`: a successful `AppendEntries` moves the commit index as far as it may iff no
  entry of another term stands before an index that may be committed, and the count is one of
  members; the reply to a snapshot, iff there was nothing to commit.
- `commits_all_of_run`: in every run the count is one of members, so only leftover entries keep
  the leader from committing.
- `committable_not_committed`: they do.
-/

namespace DistributedMQ.Raft

open Machine

namespace RaftNode

/-- **Committable.** The entry at `n` is of the current term, and a strict majority of
`currentConfig` has it: the leader, and peers whose `matchIndex` has reached `n`. -/
def Committable (r : RaftNode) (n : ℕ) : Prop :=
  n < r.log.len ∧ r.termAt n = r.currentTerm ∧
    Majority r.currentConfig.keys fun a => r.currentConfig.get a false = true ∧ r.Acked n a

instance (r : RaftNode) (n : ℕ) : Decidable (r.Committable n) :=
  inferInstanceAs (Decidable (_ ∧ _ ∧ _))

/-- **Everything is committed.** The commit index of `r'` is the larger one of the commit index
of `r` and the greatest index that may be committed. -/
def CommitsAll (r r' : RaftNode) : Prop :=
  IsGreatest (insert r.commitIndex {n | r'.Committable n}) r'.commitIndex

/-- There is nothing to commit. -/
def Exhausted (r : RaftNode) : Prop := ∀ n, r.Committable n → n ≤ r.commitIndex

/-- Before an index that may be committed, every entry behind the commit index is of the current
term. -/
def NoLeftover (r : RaftNode) : Prop :=
  ∀ n, r.Committable n → ∀ m, r.commitIndex < m → m < n → r.termAt m = r.currentTerm

/-- Where the loop can get to, its count is one of members. -/
def CountsMembers (r : RaftNode) : Prop :=
  ∀ n, r.commitIndex < n →
    (∀ m, r.commitIndex < m → m ≤ n → m < r.log.len ∧ r.termAt m = r.currentTerm) →
      r.commitQuorum n = true → r.Committable n

/-- The node once it has recorded that a peer has the entries up to `m`. -/
def recordAck (r : RaftNode) (peer : String) (m : ℕ) : RaftNode :=
  { r with
    nextIndex := r.nextIndex.insert peer (m + 1)
    matchIndex := r.matchIndex.insert peer m }

variable {r r' : RaftNode} {n : ℕ}

/-! ## The count -/

theorem Acked.mono {m : ℕ} (hmn : m ≤ n) {a : String} (h : r.Acked n a) : r.Acked m a := by
  rcases h with h | ⟨k, hk, hle⟩
  · exact Or.inl h
  · exact Or.inr ⟨k, hk, hmn.trans hle⟩

theorem commitQuorum_stable (hstable : r.configState = .stable) :
    r.commitQuorum n = true ↔
      r.currentConfig.len / 2 + 1 ≤ r.ackCount (fun a => r.currentConfig.get a false) n := by
  rw [commitQuorum, hstable]
  exact decide_eq_true_iff

theorem ackCount_anti (config : GoMap String Bool) {m : ℕ} (hmn : m ≤ n) :
    r.ackCount (fun a => config.get a false) n ≤ r.ackCount (fun a => config.get a false) m := by
  rw [ackCount_eq, ackCount_eq]
  refine Nat.succ_le_succ ((nodup_counted config).subperm fun a ha => ?_).length_le
  obtain ⟨hin, k, hk, hle⟩ := mem_counted.mp ha
  exact mem_counted.mpr ⟨hin, k, hk, hmn.trans hle⟩

/-- Whoever has counted `n` has counted what is before it. -/
theorem commitQuorum_anti (hstable : r.configState = .stable) {m : ℕ} (hmn : m ≤ n)
    (h : r.commitQuorum n = true) : r.commitQuorum m = true := by
  rw [commitQuorum_stable hstable] at h ⊢
  exact h.trans (ackCount_anti r.currentConfig hmn)

theorem Committable.commitQuorum (hstable : r.configState = .stable) (h : r.Committable n) :
    r.commitQuorum n = true :=
  (commitQuorum_stable hstable).mpr (ackCount_of_majority h.2.2)

/-- Below an index that may be committed, so may be every other one of the current term. -/
theorem Committable.of_le {m : ℕ} (h : r.Committable n) (hmn : m ≤ n)
    (hterm : r.termAt m = r.currentTerm) : r.Committable m :=
  ⟨hmn.trans_lt h.1, hterm, h.2.2.mono fun _ _ ha => ⟨ha.1, ha.2.mono hmn⟩⟩

/-- **The count is one of members**, if the leader is one and has nothing of its own behind the
commit index in `matchIndex`. -/
theorem counts_members (hstable : r.configState = .stable)
    (hself : r.currentConfig.get r.selfAddr false = true)
    (hbelow : ∀ m, r.matchIndex.lookup r.selfAddr = some m → m ≤ r.commitIndex) :
    r.CountsMembers := by
  intro n hlt hrange hquorum
  obtain ⟨hlen, hterm⟩ := hrange n hlt le_rfl
  refine ⟨hlen, hterm, majority_counted (fun m hm => (hbelow m hm).trans_lt hlt) hself ?_⟩
  exact (commitQuorum_stable hstable).mp hquorum

/-! ## The loop -/

/-- **Run.** The loop comes to `n` if every index up to it passes the test. -/
theorem commitLoop_reaches :
    ∀ (k : ℕ) (r : RaftNode), n ≤ r.commitIndex + k →
      (∀ m, r.commitIndex < m → m ≤ n →
        m < r.log.len ∧ r.termAt m = r.currentTerm ∧ r.commitQuorum m = true) →
      n ≤ (commitLoop k r).commitIndex := by
  intro k
  induction k with
  | zero => exact fun r hle _ => hle
  | succ k ih =>
    intro r hle htest
    unfold commitLoop
    dsimp only
    split
    · obtain ⟨pc, cc, hshape⟩ := r.commitTo_shape (r.commitIndex + 1)
      -- committing does not change what the test reads
      refine ih (r.commitTo (r.commitIndex + 1)) ?_ ?_
      · rw [hshape]
        dsimp only
        omega
      · rw [hshape]
        exact fun m hlt => htest m (Nat.lt_of_succ_lt hlt)
    · rename_i hfail
      by_contra hlt
      exact hfail (htest _ (Nat.lt_succ_self _) (by omega))

theorem updateCommitIndex_reaches (hstable : r.configState = .stable) (hlen : n < r.log.len)
    (hterm : ∀ m, r.commitIndex < m → m ≤ n → r.termAt m = r.currentTerm)
    (hquorum : r.commitQuorum n = true) : n ≤ r.updateCommitIndex.commitIndex := by
  refine commitLoop_reaches _ r (by omega) fun m hlt hle => ?_
  exact ⟨hle.trans_lt hlen, hterm m hlt hle, commitQuorum_anti hstable hle hquorum⟩

theorem committable_updateCommitIndex : r.updateCommitIndex.Committable n ↔ r.Committable n := by
  obtain ⟨m, pc, cc, h⟩ := commitLoop_shape r.log.len r
  unfold updateCommitIndex
  rw [h]
  rfl

theorem le_updateCommitIndex (r : RaftNode) : r.commitIndex ≤ r.updateCommitIndex.commitIndex :=
  commitLoop_reaches _ r (Nat.le_add_right _ _) fun _ hlt hle => absurd hle (not_le.mpr hlt)

/-- What the loop passes is of the current term and counted. -/
theorem updateCommitIndex_passed (hlt : r.commitIndex < n)
    (hle : n ≤ r.updateCommitIndex.commitIndex) :
    n < r.log.len ∧ r.termAt n = r.currentTerm ∧ r.commitQuorum n = true :=
  commitLoop_spec _ r n hlt hle

/-- **`updateCommitIndex`** commits everything iff it meets no entry of another term too early and
counts members only. -/
theorem commitsAll_updateCommitIndex_iff (hstable : r.configState = .stable) :
    CommitsAll r r.updateCommitIndex ↔ r.NoLeftover ∧ r.CountsMembers := by
  constructor
  · rintro ⟨hmem, hbound⟩
    have hreached : ∀ n, r.Committable n → n ≤ r.updateCommitIndex.commitIndex := fun n hn =>
      hbound (Or.inr (committable_updateCommitIndex.mpr hn))
    refine ⟨?_, ?_⟩
    · intro n hn m hlt hmn
      exact (updateCommitIndex_passed hlt (hmn.le.trans (hreached n hn))).2.1
    · intro n hlt hrange hquorum
      have hle := updateCommitIndex_reaches hstable (hrange n hlt le_rfl).1
        (fun m hlt hle => (hrange m hlt hle).2) hquorum
      -- the commit index has moved, so a majority has it, and `n` before it
      rcases hmem with heq | hcommit
      · exact absurd (heq ▸ hle) (not_le.mpr hlt)
      · exact (committable_updateCommitIndex.mp hcommit).of_le hle (hrange n hlt le_rfl).2
  · rintro ⟨hno, hcounts⟩
    constructor
    · rcases (le_updateCommitIndex r).eq_or_lt with heq | hlt
      · exact Or.inl heq.symm
      · refine Or.inr (committable_updateCommitIndex.mpr (hcounts _ hlt ?_ ?_))
        · intro m hm hle
          exact ⟨(updateCommitIndex_passed hm hle).1, (updateCommitIndex_passed hm hle).2.1⟩
        · exact (updateCommitIndex_passed hlt le_rfl).2.2
    · rintro n (rfl | hn)
      · exact le_updateCommitIndex r
      · have hn := committable_updateCommitIndex.mp hn
        refine updateCommitIndex_reaches hstable hn.1 ?_ (hn.commitQuorum hstable)
        intro m hlt hle
        rcases hle.eq_or_lt with rfl | hmn
        · exact hn.2.1
        · exact hno n hn m hlt hmn

/-- A reply that leaves the commit index alone. -/
theorem commitsAll_iff_exhausted (h : r'.commitIndex = r.commitIndex) :
    CommitsAll r r' ↔ r'.Exhausted := by
  constructor
  · rintro ⟨-, hbound⟩ n hn
    exact hbound (Or.inr hn)
  · intro hex
    refine ⟨Or.inl h, ?_⟩
    rintro n (rfl | hn)
    · exact h.ge
    · exact hex n hn

theorem becomeFollower_commitIndex (r : RaftNode) (term : ℕ) :
    (r.becomeFollower term).commitIndex = r.commitIndex := by
  simp [becomeFollower, closePending]

end RaftNode

open RaftNode

/-- **Commitment.** Take a leader with a stable configuration and a successful reply.

After an `AppendEntries` of its term everything that may be committed is committed iff, once the
acknowledgement is recorded, no entry of another term stands between the commit index and an
index that may be committed, and the count is one of members. After a snapshot it is so iff the
acknowledgement gives nothing to commit. A reply of a later term ends the leadership. -/
theorem commits_all_iff {r : RaftNode} (hleader : r.state = .leader)
    (hstable : r.configState = .stable) :
    (∀ (c : AppendCall) (reply : AppendEntriesReply), reply.success = true →
      (reply.term ≤ r.currentTerm → (CommitsAll r (r.handleAppendReply c reply) ↔
        (r.recordAck c.peer (c.prevLogIndex + c.entries.len)).NoLeftover ∧
          (r.recordAck c.peer (c.prevLogIndex + c.entries.len)).CountsMembers)) ∧
      (r.currentTerm < reply.term → (CommitsAll r (r.handleAppendReply c reply) ↔
        (r.becomeFollower reply.term).Exhausted))) ∧
    (∀ (c : SnapshotCall) (reply : InstallSnapshotReply), reply.success = true →
      (reply.term ≤ r.currentTerm → (CommitsAll r (r.handleSnapshotReply c reply) ↔
        (r.recordAck c.peer c.lastIndex).Exhausted)) ∧
      (r.currentTerm < reply.term → (CommitsAll r (r.handleSnapshotReply c reply) ↔
        (r.becomeFollower reply.term).Exhausted))) := by
  refine ⟨fun c reply hsucc => ⟨fun hterm => ?_, fun hterm => ?_⟩,
    fun c reply hsucc => ⟨fun hterm => ?_, fun hterm => ?_⟩⟩
  · rw [handleAppendReply_ack hterm hleader hsucc]
    exact @commitsAll_updateCommitIndex_iff
      (r.recordAck c.peer (c.prevLogIndex + c.entries.len)) hstable
  · rw [handleAppendReply, if_pos hterm]
    exact commitsAll_iff_exhausted (becomeFollower_commitIndex r reply.term)
  · rw [handleSnapshotReply, if_neg (not_lt.mpr hterm), if_pos hsucc]
    exact @commitsAll_iff_exhausted r (r.recordAck c.peer c.lastIndex) rfl
  · rw [handleSnapshotReply, if_pos hterm]
    exact commitsAll_iff_exhausted (becomeFollower_commitIndex r reply.term)

section runs

variable [GrowthPolicy]

/-- **Runs.** In every run of a node, restarts and snapshots included, the count is one of members
and the first condition is all there is: a leader that handles a successful `AppendEntries` reply
commits everything it may iff no leftover entry stands in the way. -/
theorem commits_all_of_run {self : String} {peers : List String} {dir : String} {disk : Disk}
    {p p' : Proc} {id : ℕ} {reply : AppendEntriesReply}
    (hrun : Run Proc.next (fun _ _ _ => True) (Proc.boot self peers dir disk) p)
    (hleader : p.node.state = .leader) (hstable : p.node.configState = .stable)
    (hself : p.node.currentConfig.get self false = true)
    (hst : p.next (.appendReply id reply) = some p') (hsucc : reply.success = true)
    (hterm : reply.term ≤ p.node.currentTerm) :
    ∃ c ∈ p.appends, c.id = id ∧ (CommitsAll p.node p'.node ↔
      (p.node.recordAck c.peer (c.prevLogIndex + c.entries.len)).NoLeftover) := by
  have hout : Outward self p := by
    refine hrun.invariant (P := Outward self) (outward_boot self peers dir disk) ?_
    intro p ev p' h _ hst
    exact h.next hst
  obtain ⟨⟨q, out⟩, hstep, rfl⟩ := Option.map_eq_some_iff.mp hst
  obtain ⟨c, hc, hid, hnode⟩ := Proc.step_appendReply hstep
  have hname := hout.excludes.name
  have hcounts : (p.node.recordAck c.peer (c.prevLogIndex + c.entries.len)).CountsMembers := by
    refine counts_members hstable (hname ▸ hself) fun m hm => ?_
    -- the acknowledgement is not the leader's own
    have hne : p.node.selfAddr ≠ c.peer := by
      rintro heq
      exact hout.calls (Proc.mem_addressees.mpr (Or.inl ⟨c, hc, heq.symm.trans hname⟩))
    have hold : p.node.matchIndex.lookup p.node.selfAddr = some m :=
      (AList.lookup_insert_ne hne).symm.trans hm
    rw [hout.acks m (hname ▸ hold)]
    exact Nat.zero_le _
  refine ⟨c, hc, hid, ?_⟩
  dsimp only
  rw [hnode, handleAppendReply_ack hterm hleader hsucc]
  exact (@commitsAll_updateCommitIndex_iff
    (p.node.recordAck c.peer (c.prevLogIndex + c.entries.len)) hstable).trans
      (and_iff_left hcounts)

end runs

section traces

open scoped GrowthPolicy

/-- `a` leads `b` and `c` in term 2 and has taken a command behind 999 committed entries. When
`b` acknowledges it, it is committed. -/
theorem commits_all_iff_command :
    ∃ p : Proc, Run Proc.next (fun _ _ _ => True) (Proc.boot "a" ["b", "c"] "data" memberDisk) p ∧
      ∃ c ∈ p.appends, (p.node.recordAck c.peer (c.prevLogIndex + c.entries.len)).Committable 1000 ∧
        CommitsAll p.node (p.node.handleAppendReply c { term := 2, success := true }) := by
  obtain ⟨p, hrun, hleader, hstable, hterm, hself, hcommit, hlen, hown, c, hc, hpeer, hn⟩ :
      ∃ p : Proc,
        Run Proc.next (fun _ _ _ => True) (Proc.boot "a" ["b", "c"] "data" memberDisk) p ∧
        p.node.state = .leader ∧ p.node.configState = .stable ∧ p.node.currentTerm = 2 ∧
        p.node.currentConfig.get p.node.selfAddr false = true ∧ p.node.commitIndex = 999 ∧
        p.node.log.len = 1001 ∧ p.node.matchIndex.lookup p.node.selfAddr = none ∧
        ∃ c ∈ p.appends, c.peer ≠ p.node.selfAddr ∧
          (p.node.recordAck c.peer (c.prevLogIndex + c.entries.len)).Committable 1000 :=
    exists_run_of_execWith
      [Event.electionTimeout, .voteReply 0 "b" { term := 2, voteGranted := true },
        .submitCommand "t" 0 [1], .sendAppendEntries "b", .marshal 1] (by decide +kernel)
  refine ⟨p, hrun, c, hc, hn,
    ((commits_all_iff hleader hstable).1 c _ rfl).1 hterm.ge |>.mpr ⟨?_, ?_⟩⟩
  · -- there is only one index behind the commit index
    rintro n ⟨hlt, -⟩ m hcm hmn
    change n < p.node.log.len at hlt
    change p.node.commitIndex < m at hcm
    omega
  · refine counts_members hstable hself fun m hm => ?_
    rw [recordAck, AList.lookup_insert_ne hpeer.symm, hown] at hm
    cases hm

/-- The files of `a` with 999 entries of term 0, the last one of them not committed. -/
def leftoverDisk : Disk := Cluster.savedDisk ["a", "b", "c"] 1 998 (history 999)

/-- **A leader that commits nothing.** `b` has acknowledged the command of `a` in term 2 behind
an entry of an earlier term: a majority has both, and `a` commits neither. -/
theorem committable_not_committed :
    ∃ p : Proc,
      Run Proc.next (fun _ _ _ => True) (Proc.boot "a" ["b", "c"] "data" leftoverDisk) p ∧
      ∃ p' ∈ p.next (.appendReply 1 { term := 2, success := true }),
        p.node.state = .leader ∧ p.node.configState = .stable ∧
        p.node.currentConfig.get "a" false = true ∧ p.node.commitIndex = 998 ∧
        p'.node.Committable 1000 ∧ p'.node.commitIndex = 998 :=
  exists_run_of_execWith
    [Event.electionTimeout, .voteReply 0 "b" { term := 2, voteGranted := true },
      .submitCommand "t" 0 [1], .sendAppendEntries "b", .marshal 1] (by decide +kernel)

end traces

end DistributedMQ.Raft
