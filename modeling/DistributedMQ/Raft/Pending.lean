import DistributedMQ.Raft.LogSteps
import DistributedMQ.Raft.NodeOp

/-!
# The commit channels of a leader

`SubmitCommand` files a channel under the index of its entry. It is closed when
the commit index gets there, but also by `becomeFollower` and `becomeLeader`,
and whoever waits cannot tell the difference.

- `PendingOk r`: only a leader has channels on file; each is open, belongs to
  one index, and that index is in the log.
- `Carries r r'`: an entry with a channel on file keeps its channel and its
  place in the log, or is in the log at or below the commit index.
- `NodeOp.pending`: both hold across every operation that does not step down
  with channels on file (`Proc.StepsDownIdle`) and, as there is one leader per
  term, does not make a leader follow another one of its term
  (`Proc.AloneInTerm`).
-/

namespace DistributedMQ.Raft

/-- The term of the message an event takes. -/
def Event.messageTerm : Event → Option ℕ
  | .requestVote _ _ args => some args.term
  | .voteReply _ _ reply => some reply.term
  | .appendEntries _ _ args => some args.term
  | .appendReply _ reply => some reply.term
  | .installSnapshot _ _ args => some args.term
  | .snapshotReply _ reply => some reply.term
  | _ => none

/-- The term of a request that only a leader sends. -/
def Event.leaderTerm : Event → Option ℕ
  | .appendEntries _ _ args => some args.term
  | .installSnapshot _ _ args => some args.term
  | _ => none

/-- A message with a newer term finds no channel on file. -/
def Proc.StepsDownIdle (p : Proc) (ev : Event) : Prop :=
  ∀ t ∈ ev.messageTerm, p.node.currentTerm < t → p.node.pendingCommit.keys = []

/-- A leader gets no request of another leader of its term. -/
def Proc.AloneInTerm (p : Proc) (ev : Event) : Prop :=
  ∀ t ∈ ev.leaderTerm, t = p.node.currentTerm → p.node.state ≠ .leader

instance (p : Proc) (ev : Event) : Decidable (p.StepsDownIdle ev) :=
  inferInstanceAs (Decidable (∀ t ∈ ev.messageTerm, _))

instance (p : Proc) (ev : Event) : Decidable (p.AloneInTerm ev) :=
  inferInstanceAs (Decidable (∀ t ∈ ev.leaderTerm, _))

namespace RaftNode

structure PendingOk (r : RaftNode) : Prop where
  lead : ∀ n ch, r.pendingCommit.lookup n = some ch → r.state = .leader
  within : ∀ n ch, r.pendingCommit.lookup n = some ch → n < r.log.len
  isOpen : ∀ n ch, r.pendingCommit.lookup n = some ch → ch < r.chansMade ∧ ch ∉ r.chansClosed
  inj : ∀ n m ch, r.pendingCommit.lookup n = some ch → r.pendingCommit.lookup m = some ch → n = m
  closed : ∀ ch ∈ r.chansClosed, ch < r.chansMade

/-- An entry with a channel on file keeps it or is committed. -/
def Carries (r r' : RaftNode) : Prop :=
  ∀ n ch e, r.pendingCommit.lookup n = some ch → r.log.elems[n]? = some e →
    r'.log.elems[n]? = some e ∧ (r'.pendingCommit.lookup n = some ch ∨ n ≤ r'.commitIndex)

/-- An operation that leaves the channels alone and, if there are any on file,
leadership and the entries too. -/
structure PendingFrame (r r' : RaftNode) : Prop where
  pending : r'.pendingCommit = r.pendingCommit
  made : r'.chansMade = r.chansMade
  closed : r'.chansClosed = r.chansClosed
  live : ∀ n ch, r.pendingCommit.lookup n = some ch →
    r'.state = .leader ∧ r.log.elems <+: r'.log.elems

theorem PendingFrame.ok {r r' : RaftNode} (h : PendingFrame r r') (hok : PendingOk r) :
    PendingOk r' ∧ Carries r r' := by
  refine ⟨⟨fun n ch hn => ?_, fun n ch hn => ?_, fun n ch hn => ?_, fun n m ch hn hm => ?_,
    fun ch hch => ?_⟩, fun n ch e hn he => ?_⟩
  · rw [h.pending] at hn
    exact (h.live n ch hn).1
  · rw [h.pending] at hn
    exact lt_of_lt_of_le (hok.within n ch hn) (h.live n ch hn).2.length_le
  · rw [h.pending] at hn
    rw [h.made, h.closed]
    exact hok.isOpen n ch hn
  · rw [h.pending] at hn hm
    exact hok.inj n m ch hn hm
  · rw [h.closed] at hch
    rw [h.made]
    exact hok.closed ch hch
  · refine ⟨TermLog.getElem?_of_prefix (h.live n ch hn).2 he, Or.inl ?_⟩
    rw [h.pending]
    exact hn

/-- Without channels on file it is enough that none is filed or closed. -/
theorem PendingFrame.of_empty {r r' : RaftNode} (hempty : r.pendingCommit = ∅)
    (hpending : r'.pendingCommit = ∅) (hmade : r'.chansMade = r.chansMade)
    (hclosed : r'.chansClosed = r.chansClosed) : PendingFrame r r' where
  pending := hpending.trans hempty.symm
  made := hmade
  closed := hclosed
  live n ch hn := by
    rw [hempty] at hn
    simp at hn

/-- A leader that leaves its channels alone and at most appends to its log. -/
theorem PendingFrame.of_grows {r r' : RaftNode} (hok : PendingOk r)
    (hpending : r'.pendingCommit = r.pendingCommit) (hmade : r'.chansMade = r.chansMade)
    (hclosed : r'.chansClosed = r.chansClosed) (hstate : r'.state = r.state)
    (hlog : r.log.elems <+: r'.log.elems) : PendingFrame r r' where
  pending := hpending
  made := hmade
  closed := hclosed
  live n ch hn := ⟨hstate.trans (hok.lead n ch hn), hlog⟩

theorem PendingFrame.refl {r : RaftNode} (hok : PendingOk r) : PendingFrame r r :=
  .of_grows hok rfl rfl rfl rfl List.prefix_rfl

theorem eq_empty_of_keys {m : GoMap ℕ ℕ} (h : m.keys = []) : m = ∅ := by
  refine AList.ext ?_
  unfold AList.keys List.keys at h
  simpa using h

/-- Only a leader has channels on file. -/
theorem PendingOk.empty {r : RaftNode} (hok : PendingOk r) (hlead : r.state ≠ .leader) :
    r.pendingCommit = ∅ := by
  refine eq_empty_of_keys (List.eq_nil_iff_forall_not_mem.mpr fun n hn => hlead ?_)
  obtain ⟨ch, hch⟩ := GoMap.mem_iff_exists_lookup.mp (AList.mem_keys.mpr hn)
  exact hok.lead n ch hch

theorem values_empty : GoMap.values (∅ : GoMap ℕ ℕ) = [] := rfl

/-- Stepping down with nothing on file. -/
theorem pendingFrame_observeTerm {r : RaftNode} {term : ℕ} (hok : PendingOk r)
    (hidle : r.currentTerm < term → r.pendingCommit = ∅) :
    PendingFrame r (r.observeTerm term) := by
  unfold observeTerm
  split
  · rename_i hnew
    have hempty := hidle hnew
    refine .of_empty hempty (by simp [becomeFollower, closePending]) (by
      simp [becomeFollower, closePending]) ?_
    simp [becomeFollower, closePending, hempty, values_empty]
  · exact .refl hok

/-- `becomeFollower` on a newer term. -/
theorem pendingFrame_becomeFollower {r : RaftNode} {term : ℕ} (hok : PendingOk r)
    (hnew : r.currentTerm < term) (hidle : r.currentTerm < term → r.pendingCommit = ∅) :
    PendingFrame r (r.becomeFollower term) := by
  have hframe := pendingFrame_observeTerm hok hidle
  rwa [show r.observeTerm term = r.becomeFollower term from if_pos hnew] at hframe

theorem pendingFrame_startElection {r : RaftNode} (hok : PendingOk r) (hlead : r.state ≠ .leader)
    (id : ℕ) : PendingFrame r (r.startElection id).1 := by
  have hempty := hok.empty hlead
  unfold startElection
  split
  · refine .of_empty hempty (by simp [becomeLeader, closePending]) (by
      simp [becomeLeader, closePending, campaign]) ?_
    simp [becomeLeader, closePending, campaign, hempty, values_empty]
  · exact .of_empty hempty (by simpa [campaign] using hempty) (by simp [campaign])
      (by simp [campaign])

theorem pendingFrame_requestVote {r : RaftNode} {args : RequestVoteArgs} (hok : PendingOk r)
    (hidle : r.currentTerm < args.term → r.pendingCommit = ∅) :
    PendingFrame r (r.requestVote args).1 := by
  have hframe := pendingFrame_observeTerm hok hidle
  unfold requestVote
  dsimp only
  split
  · exact .refl hok
  split
  · refine ⟨?_, ?_, ?_, fun n ch hn => ?_⟩
    · simpa using hframe.pending
    · simpa using hframe.made
    · simpa using hframe.closed
    · simpa using hframe.live n ch hn
  · exact hframe

theorem pendingFrame_handleVoteReply {r : RaftNode} {e : Election} {peer : String}
    {reply : RequestVoteReply} (hok : PendingOk r)
    (hidle : r.currentTerm < reply.term → r.pendingCommit = ∅) :
    PendingFrame r (r.handleVoteReply e peer reply).1 := by
  unfold handleVoteReply
  dsimp only
  split
  · exact pendingFrame_becomeFollower hok ‹_› hidle
  split
  · rename_i hcand
    split
    · -- a candidate has no channels on file
      have hempty := hok.empty (by rw [hcand.1]; decide)
      refine .of_empty hempty rfl rfl ?_
      simp [becomeLeader, closePending, hempty, values_empty]
    · exact .refl hok
  · exact .refl hok

theorem pendingFrame_applyLoop {r : RaftNode} (hok : PendingOk r) (k : ℕ) :
    PendingFrame r (applyLoop k r).1 := by
  obtain ⟨la, ch, ps, isr, ni, mi, cc, nc, cs, h⟩ := applyLoop_shape k r
  rw [h]
  exact .of_grows hok rfl rfl rfl rfl List.prefix_rfl

/-! ## The commit loop -/

/-- Committing an index closes its channel. -/
theorem commitTo_pending {r : RaftNode} {n : ℕ} (hok : PendingOk r) :
    PendingOk (r.commitTo n) ∧ Carries r (r.commitTo n) := by
  unfold commitTo
  split
  · rename_i ch hch
    -- the other channels are other ones
    have hother : ∀ m ch', (r.pendingCommit.erase n).lookup m = some ch' →
        r.pendingCommit.lookup m = some ch' ∧ ch' ≠ ch := by
      intro m ch' hm
      have hne : m ≠ n := by
        rintro rfl
        rw [AList.lookup_erase] at hm
        cases hm
      rw [AList.lookup_erase_ne hne] at hm
      refine ⟨hm, ?_⟩
      rintro rfl
      exact hne (hok.inj m n ch' hm hch)
    refine ⟨⟨fun m ch' hm => hok.lead m ch' (hother m ch' hm).1,
      fun m ch' hm => hok.within m ch' (hother m ch' hm).1, fun m ch' hm => ?_,
      fun m m' ch' hm hm' => hok.inj m m' ch' (hother m ch' hm).1 (hother m' ch' hm').1,
      fun ch' hch' => ?_⟩, fun m ch' e hm he => ⟨he, ?_⟩⟩
    · obtain ⟨hold, hne⟩ := hother m ch' hm
      obtain ⟨hlt, hopen⟩ := hok.isOpen m ch' hold
      refine ⟨hlt, fun hmem => ?_⟩
      rcases List.mem_append.mp hmem with hmem | hmem
      · exact hopen hmem
      · exact hne (List.mem_singleton.mp hmem)
    · rcases List.mem_append.mp hch' with hch' | hch'
      · exact hok.closed ch' hch'
      · rw [List.mem_singleton.mp hch']
        exact (hok.isOpen n ch hch).1
    · by_cases hmn : m = n
      · exact Or.inr (le_of_eq hmn)
      · exact Or.inl ((AList.lookup_erase_ne hmn).trans hm)
  · refine PendingFrame.ok ?_ hok
    exact .of_grows hok rfl rfl rfl rfl List.prefix_rfl

theorem commitLoop_pending : ∀ (k : ℕ) {r : RaftNode}, PendingOk r →
    PendingOk (commitLoop k r) ∧ Carries r (commitLoop k r) ∧
      r.commitIndex ≤ (commitLoop k r).commitIndex := by
  intro k
  induction k with
  | zero => exact fun {r} hok => ⟨hok, fun n ch e hn he => ⟨he, Or.inl hn⟩, le_rfl⟩
  | succ k ih =>
    intro r hok
    unfold commitLoop
    dsimp only
    split
    · obtain ⟨hok₁, hcarry₁⟩ := @commitTo_pending r (r.commitIndex + 1) hok
      obtain ⟨hok₂, hcarry₂, hle⟩ := ih hok₁
      obtain ⟨pc, cc, hshape⟩ := r.commitTo_shape (r.commitIndex + 1)
      have hci : (r.commitTo (r.commitIndex + 1)).commitIndex = r.commitIndex + 1 := by rw [hshape]
      have hlog : (commitLoop k (r.commitTo (r.commitIndex + 1))).log = r.log := by
        obtain ⟨n', pc', cc', hshape'⟩ := commitLoop_shape k (r.commitTo (r.commitIndex + 1))
        rw [hshape', hshape]
      refine ⟨hok₂, fun n ch e hn he => ?_, by omega⟩
      rw [hlog]
      refine ⟨he, ?_⟩
      obtain ⟨he₁, hkept | hcommitted⟩ := hcarry₁ n ch e hn he
      · exact (hcarry₂ n ch e hkept he₁).2
      · exact Or.inr (hcommitted.trans hle)
    · exact ⟨hok, fun n ch e hn he => ⟨he, Or.inl hn⟩, le_rfl⟩

theorem handleAppendReply_pending {r : RaftNode} {c : AppendCall} {reply : AppendEntriesReply}
    (hok : PendingOk r) (hidle : r.currentTerm < reply.term → r.pendingCommit = ∅) :
    PendingOk (r.handleAppendReply c reply) ∧ Carries r (r.handleAppendReply c reply) := by
  unfold handleAppendReply
  split
  · exact (pendingFrame_becomeFollower hok ‹_› hidle).ok hok
  split
  · exact (PendingFrame.refl hok).ok hok
  split
  · -- `matchIndex` and `nextIndex` do not matter here
    have hok' : PendingOk
        { r with
          nextIndex := r.nextIndex.insert c.peer (c.prevLogIndex + c.entries.len + 1)
          matchIndex := r.matchIndex.insert c.peer (c.prevLogIndex + c.entries.len) } :=
      ⟨hok.lead, hok.within, hok.isOpen, hok.inj, hok.closed⟩
    obtain ⟨hok'', hcarry, -⟩ := commitLoop_pending r.log.len hok'
    exact ⟨hok'', hcarry⟩
  split
  · refine PendingFrame.ok ?_ hok
    exact .of_grows hok rfl rfl rfl rfl List.prefix_rfl
  · exact (PendingFrame.refl hok).ok hok

theorem pendingFrame_handleSnapshotReply {r : RaftNode} {c : SnapshotCall}
    {reply : InstallSnapshotReply} (hok : PendingOk r)
    (hidle : r.currentTerm < reply.term → r.pendingCommit = ∅) :
    PendingFrame r (r.handleSnapshotReply c reply) := by
  unfold handleSnapshotReply
  split
  · exact pendingFrame_becomeFollower hok ‹_› hidle
  split
  · exact .of_grows hok rfl rfl rfl rfl List.prefix_rfl
  · exact .refl hok

/-! ## Following a leader -/

/-- A node that takes a leader's request has nothing on file, before and after. -/
theorem observeTerm_empty {r : RaftNode} {term : ℕ} (hok : PendingOk r)
    (hterm : r.currentTerm ≤ term) (hidle : r.currentTerm < term → r.pendingCommit = ∅)
    (halone : term = r.currentTerm → r.state ≠ .leader) :
    r.pendingCommit = ∅ ∧ PendingFrame r (r.observeTerm term) := by
  refine ⟨?_, pendingFrame_observeTerm hok hidle⟩
  rcases hterm.lt_or_eq with hlt | heq
  · exact hidle hlt
  · exact hok.empty (halone heq.symm)

section growth

variable [GrowthPolicy]

theorem pendingFrame_appendEntries {r : RaftNode} {args : AppendEntriesArgs} (hok : PendingOk r)
    (hidle : r.currentTerm < args.term → r.pendingCommit = ∅)
    (halone : args.term = r.currentTerm → r.state ≠ .leader) :
    PendingFrame r (r.appendEntries args).1 := by
  unfold appendEntries
  dsimp only
  split
  · exact .refl hok
  rename_i hterm
  obtain ⟨hempty, hframe⟩ := observeTerm_empty hok (not_lt.mp hterm) hidle halone
  split
  · exact hframe
  split
  · exact hframe
  · obtain ⟨ci, la, ch, ps, isr, ni, mi, cc, nc, cs, h⟩ :=
      acceptEntries_shape (r.observeTerm args.term) args
    rw [h]
    refine .of_empty hempty ?_ ?_ ?_
    · rw [saveState_pendingCommit]
      exact hframe.pending.trans hempty
    · rw [saveState_chansMade]
      exact hframe.made
    · rw [saveState_chansClosed]
      exact hframe.closed

theorem pendingFrame_installSnapshot {r : RaftNode} {args : InstallSnapshotArgs}
    (hok : PendingOk r) (hidle : r.currentTerm < args.term → r.pendingCommit = ∅)
    (halone : args.term = r.currentTerm → r.state ≠ .leader) :
    PendingFrame r (r.installSnapshot args).1 := by
  unfold installSnapshot
  dsimp only
  split
  · exact .refl hok
  rename_i hterm
  obtain ⟨hempty, hframe⟩ := observeTerm_empty hok (not_lt.mp hterm) hidle halone
  split
  · exact hframe
  · unfold acceptSnapshot
    refine .of_empty hempty ?_ ?_ ?_
    · rw [saveState_pendingCommit]
      exact hframe.pending.trans hempty
    · rw [saveState_chansMade]
      exact hframe.made
    · rw [saveState_chansClosed]
      exact hframe.closed

/-! ## New entries -/

theorem pendingFrame_appendOwn {r : RaftNode} (hok : PendingOk r) (entry : LogEntry) :
    PendingFrame r (r.appendOwn entry) := by
  unfold appendOwn
  refine .of_grows hok (by simp) (by simp) (by simp) (by simp) ?_
  rw [saveState_log, GoSlice.elems_append]
  exact List.prefix_append _ _

omit [GrowthPolicy] in
/-- A new channel that is closed at once. -/
theorem PendingOk.close {r : RaftNode} (hok : PendingOk r) :
    PendingOk { r with
      chansMade := r.chansMade + 1
      chansClosed := r.chansClosed ++ [r.chansMade] } where
  lead := hok.lead
  within := hok.within
  isOpen n c hn := by
    obtain ⟨hlt, hopen⟩ := hok.isOpen n c hn
    refine ⟨Nat.lt_succ_of_lt hlt, fun hmem => ?_⟩
    rcases List.mem_append.mp hmem with hmem | hmem
    · exact hopen hmem
    · exact hlt.ne (List.mem_singleton.mp hmem)
  inj := hok.inj
  closed c hc := by
    rcases List.mem_append.mp hc with hc | hc
    · exact Nat.lt_succ_of_lt (hok.closed c hc)
    · rw [List.mem_singleton.mp hc]
      exact Nat.lt_succ_self _

omit [GrowthPolicy] in
/-- A new channel for an entry of the log. -/
theorem PendingOk.file {r : RaftNode} (hok : PendingOk r) (hlead : r.state = .leader) {k : ℕ}
    (hk : k < r.log.len) :
    PendingOk { r with
      chansMade := r.chansMade + 1
      pendingCommit := r.pendingCommit.insert k r.chansMade } := by
  -- the new channel is none of those before
  have hfresh : ∀ n ch, r.pendingCommit.lookup n = some ch → ch ≠ r.chansMade :=
    fun n ch hn => (hok.isOpen n ch hn).1.ne
  have hcases : ∀ n c, (r.pendingCommit.insert k r.chansMade).lookup n = some c →
      (n = k ∧ c = r.chansMade) ∨ r.pendingCommit.lookup n = some c := by
    intro n c hn
    rw [GoMap.lookup_insert_eq] at hn
    split at hn
    · exact Or.inl ⟨‹_›, (Option.some.inj hn).symm⟩
    · exact Or.inr hn
  refine ⟨fun _ _ _ => hlead, fun n c hn => ?_, fun n c hn => ?_, fun n m c hn hm => ?_,
    fun c hc => Nat.lt_succ_of_lt (hok.closed c hc)⟩
  · rcases hcases n c hn with ⟨rfl, -⟩ | hold
    · exact hk
    · exact hok.within n c hold
  · rcases hcases n c hn with ⟨-, rfl⟩ | hold
    · exact ⟨Nat.lt_succ_self _, fun hmem => lt_irrefl _ (hok.closed _ hmem)⟩
    · obtain ⟨hlt, hopen⟩ := hok.isOpen n c hold
      exact ⟨Nat.lt_succ_of_lt hlt, hopen⟩
  · rcases hcases n c hn with ⟨rfl, rfl⟩ | hn
    · rcases hcases m _ hm with ⟨rfl, -⟩ | hm
      · rfl
      · exact absurd rfl (hfresh m _ hm)
    · rcases hcases m c hm with ⟨-, rfl⟩ | hm
      · exact absurd rfl (hfresh n _ hn)
      · exact hok.inj n m c hn hm

/-- **`SubmitCommand`** files the new entry's channel, or commits the entry at
once if there are no peers. -/
theorem submitCommand_pending {r : RaftNode} (hok : PendingOk r) (topic : String) (partition : ℤ)
    (data : List UInt8) :
    PendingOk (r.submitCommand topic partition data).1 ∧
      Carries r (r.submitCommand topic partition data).1 := by
  unfold submitCommand
  split
  case isFalse => exact (PendingFrame.refl hok).ok hok
  case isTrue hlead =>
  dsimp only
  have hframe := pendingFrame_appendOwn hok (r.commandEntry topic partition data)
  obtain ⟨hok₁, hcarry₁⟩ := hframe.ok hok
  have hlead₁ : (r.appendOwn (r.commandEntry topic partition data)).state = .leader := by
    simp [appendOwn, hlead]
  have hlen₁ : (r.appendOwn (r.commandEntry topic partition data)).log.len = r.log.len + 1 := by
    simp [appendOwn, GoSlice.len, GoSlice.elems_append]
  generalize r.appendOwn (r.commandEntry topic partition data) = r₁ at *
  split
  · obtain ⟨la, ch, ps, isr, ni, mi, cc, nc, cs, hshape⟩ := applyLoop_shape
      (r.log.len - r₁.lastApplied) { r₁ with commitIndex := r.log.len }
    unfold applyCommittedEntries
    dsimp only
    rw [hshape]
    have hclosed := hok₁.close
    refine ⟨⟨hclosed.lead, hclosed.within, hclosed.isOpen, hclosed.inj, hclosed.closed⟩,
      fun n c e hn he => ?_⟩
    exact ⟨(hcarry₁ n c e hn he).1, Or.inl (hframe.pending ▸ hn)⟩
  · refine ⟨hok₁.file hlead₁ (by omega), fun n c e hn he => ?_⟩
    -- the new index is behind all others
    have hne : n ≠ r.log.len := ne_of_lt (hok.within n c hn)
    refine ⟨(hcarry₁ n c e hn he).1, Or.inl ?_⟩
    show (r₁.pendingCommit.insert r.log.len r₁.chansMade).lookup n = some c
    rw [AList.lookup_insert_ne hne, hframe.pending]
    exact hn

/-- The entry `SubmitCommand` has created is in the log, and it has its channel
on file or is committed. -/
theorem submitCommand_created {r : RaftNode} {topic : String} {partition : ℤ} {data : List UInt8}
    {n ch : ℕ} (h : (r.submitCommand topic partition data).2 = .ok (n, ch)) :
    (r.submitCommand topic partition data).1.log.elems[n]?
        = some (r.commandEntry topic partition data) ∧
      ((r.submitCommand topic partition data).1.pendingCommit.lookup n = some ch ∨
        n ≤ (r.submitCommand topic partition data).1.commitIndex) := by
  by_cases hlead : r.state = .leader
  · have hlog := (submitCommand_leader hlead topic partition data).1
    rw [hlog, GoSlice.elems_append]
    unfold submitCommand at h ⊢
    rw [if_pos hlead] at h ⊢
    dsimp only at h ⊢
    split
    · rename_i hpeers
      rw [if_pos hpeers] at h
      obtain ⟨rfl, rfl⟩ := Prod.mk.inj (Except.ok.inj h)
      refine ⟨List.getElem?_concat_length, Or.inr ?_⟩
      obtain ⟨la, ch, ps, isr, ni, mi, cc, nc, cs, hshape⟩ := applyLoop_shape
        (r.log.len - (r.appendOwn (r.commandEntry topic partition data)).lastApplied)
        { r.appendOwn (r.commandEntry topic partition data) with commitIndex := r.log.len }
      unfold applyCommittedEntries
      dsimp only
      rw [hshape]
    · rename_i hpeers
      rw [if_neg hpeers] at h
      obtain ⟨rfl, rfl⟩ := Prod.mk.inj (Except.ok.inj h)
      exact ⟨List.getElem?_concat_length, Or.inl (AList.lookup_insert _)⟩
  · unfold submitCommand at h
    rw [if_neg hlead] at h
    cases h

end growth

end RaftNode

open RaftNode

variable [GrowthPolicy]

/-- **Every operation keeps track of the channels**, if it does not step down
with channels on file. -/
theorem NodeOp.pending {p : Proc} {ev : Event} {r : RaftNode} (h : NodeOp p ev r)
    (hok : PendingOk p.node) (hstays : ¬ ev.Restarts) (hidle : p.StepsDownIdle ev)
    (halone : p.AloneInTerm ev) : PendingOk r ∧ Carries p.node r := by
  have hempty : ∀ {t}, t ∈ ev.messageTerm → p.node.currentTerm < t → p.node.pendingCommit = ∅ :=
    fun ht hlt => eq_empty_of_keys (hidle _ ht hlt)
  cases h with
  | same => exact (PendingFrame.refl hok).ok hok
  | startElection _ hlead id => exact (pendingFrame_startElection hok hlead id).ok hok
  | requestVote caller id args => exact (pendingFrame_requestVote hok (hempty rfl)).ok hok
  | voteReply id peer reply e => exact (pendingFrame_handleVoteReply hok (hempty rfl)).ok hok
  | sendAppendEntries peer hlead =>
    unfold normalizeNext
    split
    · refine PendingFrame.ok ?_ hok
      exact .of_grows hok rfl rfl rfl rfl List.prefix_rfl
    · exact (PendingFrame.refl hok).ok hok
  | appendEntries caller id args =>
    exact (pendingFrame_appendEntries hok (hempty rfl) (halone _ rfl)).ok hok
  | appendReply id reply c => exact handleAppendReply_pending hok (hempty rfl)
  | installSnapshot caller id args =>
    exact (pendingFrame_installSnapshot hok (hempty rfl) (halone _ rfl)).ok hok
  | snapshotReply id reply c => exact (pendingFrame_handleSnapshotReply hok (hempty rfl)).ok hok
  | submitCommand topic partition data => exact submitCommand_pending hok topic partition data
  | applyCommittedEntries => exact (pendingFrame_applyLoop hok _).ok hok
  | checkISR =>
    unfold RaftNode.checkISR
    split
    · refine PendingFrame.ok ?_ hok
      exact .of_grows hok rfl rfl rfl rfl List.prefix_rfl
    · exact (PendingFrame.refl hok).ok hok
  | changeConfig addr add =>
    unfold RaftNode.changeConfig
    dsimp only
    -- the configuration does not matter here
    refine PendingFrame.ok ?_ hok
    have hframe := @pendingFrame_appendOwn _
      { p.node with
        newConfig := some (if add then (configOf p.node.currentConfig.keys).insert addr true
          else (configOf p.node.currentConfig.keys).erase addr)
        configState := .joint }
      ⟨hok.lead, hok.within, hok.isOpen, hok.inj, hok.closed⟩
    exact ⟨(hframe _).pending, (hframe _).made, (hframe _).closed, (hframe _).live⟩
  | appendStableConfig =>
    unfold RaftNode.appendStableConfig
    split
    · exact (PendingFrame.refl hok).ok hok
    · exact (pendingFrame_appendOwn hok _).ok hok
  | restart _ hev => exact absurd hev hstays

end DistributedMQ.Raft
