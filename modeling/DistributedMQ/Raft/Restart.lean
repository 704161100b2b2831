import DistributedMQ.Lib.Journal
import DistributedMQ.Lib.Machine
import DistributedMQ.Raft.LogSteps
import DistributedMQ.Raft.NodeOp

/-!
# Restart

The log of a node and its two files are a `Journal`: `saveState` is its `save`
and `NewRaftNode` its `load` (`journal_saveState`, `journal_newRaftNode`). Two
things go wrong. `saveState` writes the state file before `appendLogEntries`
moves `persistedIndex`, so a node that restarts right after it has saved new
entries saves them once more; and the log file is never cut when
`AppendEntries` cuts the log.

- `RaftNode.Clean`: the node as a completed `saveState` leaves it.
- `restart_keeps_log`: a clean restart gives the log, term, vote and commit
  index back if no `AppendEntries` has cut the log and every restart before came
  with the whole log recorded in the state file.
- `restart_doubles_entry`: a run of two clean restarts after which an entry is
  in the log twice.
-/

namespace DistributedMQ.Raft

open Machine

namespace RaftNode

/-! ## The node's files as a journal -/

def journal (r : RaftNode) : Journal LogEntry where
  list := r.log.elems.tail
  file := (r.disk.logFile.map GobBytes.values).getD []
  mark := r.persistedIndex
  record := (r.disk.stateFile.map SavedState.persistedIndex).getD 0

theorem length_journal (r : RaftNode) : r.journal.list.length = r.lastIndex := List.length_tail

theorem saveState_eq {r : RaftNode} (h : r.dataDir ≠ "") : r.saveState =
    { r with
      disk :=
        { stateFile := some r.savedState
          logFile := some
            ⟨(r.disk.logFile.map GobBytes.values).getD [] ++
              r.log.elems.drop (r.persistedIndex + 1)⟩ }
      persistedIndex := r.lastIndex } := by
  unfold saveState
  rw [if_neg h]
  exact if_neg h

theorem journal_saveState {r : RaftNode} (h : r.dataDir ≠ "") :
    r.saveState.journal = r.journal.save := by
  rw [saveState_eq h]
  unfold journal Journal.save
  simp [savedState, lastIndex, GoSlice.len, List.drop_tail]

/-- What `NewRaftNode` reads from its files. -/
structure Loaded (r : RaftNode) (dir : String) (disk : Disk) (st : SavedState) : Prop where
  log : r.log.elems = sentinel :: (disk.logFile.map GobBytes.values).getD []
  currentTerm : r.currentTerm = st.currentTerm
  votedFor : r.votedFor = st.votedFor
  commitIndex : r.commitIndex = st.commitIndex
  persistedIndex : r.persistedIndex = st.persistedIndex
  disk : r.disk = disk
  dataDir : r.dataDir = dir

theorem loaded_newRaftNode [GrowthPolicy] {dir : String} {disk : Disk} {st : SavedState}
    (hdir : dir ≠ "") (hst : disk.stateFile = some st) (self : String) (peers : List String) :
    Loaded (newRaftNode self peers dir disk) dir disk st := by
  obtain ⟨ps, cc, isr, h⟩ := addPeers_shape self peers (blankNode self dir disk)
  rw [newRaftNode, h, loadState]
  simp only [blankNode, hdir, if_false, hst, loadLogEntries]
  cases hlog : disk.logFile with
  | none => exact ⟨by simp [hlog], rfl, rfl, rfl, rfl, rfl, rfl⟩
  | some bytes =>
    by_cases hnil : bytes.values = []
    · simp only [hnil, if_true]
      exact ⟨by simp [hlog, hnil], rfl, rfl, rfl, rfl, rfl, rfl⟩
    · simp only [hnil, if_false]
      exact ⟨by simp [hlog], rfl, rfl, rfl, rfl, rfl, rfl⟩

/-- `NewRaftNode` loads the journal. -/
theorem journal_newRaftNode [GrowthPolicy] {r : RaftNode} (hdir : r.dataDir ≠ "")
    (hst : r.disk.stateFile.isSome = true) (self : String) (peers : List String) :
    (newRaftNode self peers r.dataDir r.disk).journal = r.journal.load := by
  obtain ⟨st, hst⟩ := Option.isSome_iff_exists.mp hst
  have h := loaded_newRaftNode hdir hst self peers
  unfold journal Journal.load
  simp [h.log, h.persistedIndex, hst]

/-! ## Clean restarts -/

/-- **Clean.** The node is as a completed `saveState` has left it. -/
def Clean (r : RaftNode) : Prop := ∃ r₀ : RaftNode, r₀.dataDir ≠ "" ∧ r = r₀.saveState

/-- The same by what is on disk. -/
theorem clean_iff {r : RaftNode} : r.Clean ↔
    (r.dataDir ≠ "" ∧ r.persistedIndex = r.lastIndex) ∧
      ∃ st ∈ r.disk.stateFile, ∃ bytes ∈ r.disk.logFile,
        st = { r.savedState with persistedIndex := st.persistedIndex } ∧
        r.log.elems.drop (st.persistedIndex + 1) <:+ bytes.values := by
  constructor
  · rintro ⟨r₀, hdir, rfl⟩
    rw [saveState_eq hdir]
    exact ⟨⟨hdir, rfl⟩, _, rfl, _, rfl, rfl, List.suffix_append _ _⟩
  · rintro ⟨⟨hdir, hidx⟩, st, hst, bytes, hbytes, hsaved, old, hold⟩
    refine ⟨{ r with
      persistedIndex := st.persistedIndex
      disk := { stateFile := none, logFile := some ⟨old⟩ } }, hdir, ?_⟩
    refine Eq.trans ?_ (saveState_eq (by exact hdir)).symm
    have hdisk : r.disk =
        { stateFile := some { r.savedState with persistedIndex := st.persistedIndex }
          logFile := some ⟨old ++ r.log.elems.drop (st.persistedIndex + 1)⟩ } := by
      rw [hold, ← hsaved, ← show r.disk.stateFile = some st from hst,
        ← show r.disk.logFile = some bytes from hbytes]
    have hfields : ∀ d i, r.disk = d → r.persistedIndex = i →
        r = { r with disk := d, persistedIndex := i } := by
      rintro d i rfl rfl
      rfl
    exact hfields _ _ hdisk hidx

instance (r : RaftNode) : Decidable r.Clean := decidable_of_iff _ clean_iff.symm

/-- What holds between the operations of a node: the log file holds the log
behind the sentinel, and all of it counts as written. -/
structure Kept (r : RaftNode) : Prop where
  dataDir : r.dataDir ≠ ""
  head : ∃ es, r.log.elems = sentinel :: es
  synced : r.journal.Synced
  full : r.journal.mark = r.journal.list.length

variable {r r' : RaftNode}

theorem kept_blank {dir : String} (h : dir ≠ "") (self : String) :
    Kept (blankNode self dir {}) where
  dataDir := h
  head := ⟨[], rfl⟩
  synced := Journal.synced_empty LogEntry
  full := rfl

/-- An operation that touches neither log nor files. -/
theorem Kept.of_eq (h : Kept r) (hdir : r'.dataDir = r.dataDir)
    (hlog : r'.log = r.log) (hidx : r'.persistedIndex = r.persistedIndex)
    (hdisk : r'.disk = r.disk) : Kept r' := by
  have hjournal : r'.journal = r.journal := by
    unfold journal
    rw [hlog, hidx, hdisk]
  exact ⟨hdir ▸ h.dataDir, hlog ▸ h.head, hjournal ▸ h.synced, hjournal ▸ h.full⟩

/-- An operation that at most adds to the log, and saves. -/
theorem Kept.save (h : Kept r) (hdir : r'.dataDir = r.dataDir)
    (hlog : r.log.elems <+: r'.log.elems) (hidx : r'.persistedIndex = r.persistedIndex)
    (hdisk : r'.disk = r.disk) : Kept r'.saveState := by
  have hdir' : r'.dataDir ≠ "" := hdir ▸ h.dataDir
  obtain ⟨es, hes⟩ := h.head
  obtain ⟨rest, hrest⟩ := hlog
  rw [hes, List.cons_append] at hrest
  have htail : r.log.elems.tail <+: r'.log.elems.tail := by
    rw [hes, ← hrest]
    exact List.prefix_append _ _
  have hjournal : r'.journal = { r.journal with list := r'.log.elems.tail } := by
    unfold journal
    rw [hidx, hdisk]
  -- the part that was written is unchanged
  have hsynced : r'.journal.Synced := by
    rw [hjournal]
    refine h.synced.change (h.full.le.trans htail.length_le) ?_
    rw [h.full, List.take_length]
    exact (List.prefix_iff_eq_take.mp htail).symm
  exact
    { dataDir := by rwa [saveState_dataDir]
      head := by
        rw [saveState_log]
        exact ⟨_, hrest.symm⟩
      synced := by
        rw [journal_saveState hdir']
        exact hsynced.save
      full := by
        rw [journal_saveState hdir']
        rfl }

/-! ## The operations -/

theorem Kept.becomeFollower (h : Kept r) (term : ℕ) : Kept (r.becomeFollower term) :=
  h.save rfl List.prefix_rfl rfl rfl

theorem Kept.observeTerm (h : Kept r) (term : ℕ) : Kept (r.observeTerm term) := by
  rw [RaftNode.observeTerm]
  split
  · exact h.becomeFollower term
  · exact h

theorem Kept.startElection (h : Kept r) (id : ℕ) : Kept (r.startElection id).1 := by
  rw [RaftNode.startElection]
  split
  · exact h.save rfl List.prefix_rfl rfl rfl
  · exact h.save rfl List.prefix_rfl rfl rfl

theorem Kept.requestVote (h : Kept r) (args : RequestVoteArgs) : Kept (r.requestVote args).1 := by
  rw [RaftNode.requestVote]
  split
  · exact h
  dsimp only
  split
  · exact (h.observeTerm args.term).save rfl List.prefix_rfl rfl rfl
  · exact h.observeTerm args.term

theorem Kept.handleVoteReply (h : Kept r) (e : Election) (peer : String)
    (reply : RequestVoteReply) : Kept (r.handleVoteReply e peer reply).1 := by
  rw [RaftNode.handleVoteReply]
  dsimp only
  split
  · exact h.becomeFollower reply.term
  split
  · split
    · exact h.of_eq rfl rfl rfl rfl
    · exact h
  · exact h

theorem Kept.applyLoop (h : Kept r) (k : ℕ) : Kept (RaftNode.applyLoop k r).1 := by
  obtain ⟨la, ch, ps, isr, ni, mi, cc, nc, cs, hshape⟩ := applyLoop_shape k r
  rw [hshape]
  exact h.of_eq rfl rfl rfl rfl

theorem Kept.handleAppendReply (h : Kept r) (c : AppendCall) (reply : AppendEntriesReply) :
    Kept (r.handleAppendReply c reply) := by
  rw [RaftNode.handleAppendReply]
  split
  · exact h.becomeFollower reply.term
  split
  · exact h
  split
  · obtain ⟨n, pc, cc, hshape⟩ := commitLoop_shape r.log.len
      { r with
        nextIndex := r.nextIndex.insert c.peer (c.prevLogIndex + c.entries.len + 1)
        matchIndex := r.matchIndex.insert c.peer (c.prevLogIndex + c.entries.len) }
    rw [updateCommitIndex, hshape]
    exact h.of_eq rfl rfl rfl rfl
  split
  · exact h.of_eq rfl rfl rfl rfl
  · exact h

theorem Kept.handleSnapshotReply (h : Kept r) (c : SnapshotCall)
    (reply : InstallSnapshotReply) : Kept (r.handleSnapshotReply c reply) := by
  rw [RaftNode.handleSnapshotReply]
  split
  · exact h.becomeFollower reply.term
  split
  · exact h.of_eq rfl rfl rfl rfl
  · exact h

theorem Kept.checkISR (h : Kept r) : Kept r.checkISR := by
  rw [RaftNode.checkISR]
  split
  · exact h.of_eq rfl rfl rfl rfl
  · exact h

theorem Kept.normalizeNext (h : Kept r) (peer : String) : Kept (r.normalizeNext peer) := by
  rw [RaftNode.normalizeNext]
  split
  · exact h.of_eq rfl rfl rfl rfl
  · exact h

section growing

variable [GrowthPolicy]

theorem Kept.appendOwn (h : Kept r) (entry : LogEntry) : Kept (r.appendOwn entry) :=
  h.save rfl (by simp) rfl rfl

theorem Kept.submitCommand (h : Kept r) (topic : String) (partition : ℤ) (data : List UInt8) :
    Kept (r.submitCommand topic partition data).1 := by
  rw [RaftNode.submitCommand]
  split
  · dsimp only
    have hown := h.appendOwn (r.commandEntry topic partition data)
    split
    · refine Kept.of_eq (Kept.applyLoop ?_ _) rfl rfl rfl rfl
      exact hown.of_eq rfl rfl rfl rfl
    · exact hown.of_eq rfl rfl rfl rfl
  · exact h

theorem Kept.changeConfig (h : Kept r) (addr : String) (add : Bool) :
    Kept (r.changeConfig addr add) := by
  rw [RaftNode.changeConfig]
  refine Kept.appendOwn ?_ _
  exact h.of_eq rfl rfl rfl rfl

theorem Kept.appendStableConfig (h : Kept r) : Kept r.appendStableConfig := by
  rw [RaftNode.appendStableConfig]
  split
  · exact h
  · exact h.appendOwn _

/-- A merge without a conflict only adds to the log. -/
theorem Kept.acceptEntries {args : AppendEntriesArgs} (h : Kept r)
    (hc : GoSlice.NoConflict LogEntry.term r.log.elems (args.prevLogIndex + 1) args.entries
      r.log.len) : Kept (r.acceptEntries args) := by
  obtain ⟨ci, la, ch, ps, isr, ni, mi, cc, nc, cs, hshape⟩ := acceptEntries_shape r args
  rw [hshape]
  refine h.save rfl ?_ rfl rfl
  show r.log.elems <+: (r.log.splice LogEntry.term (args.prevLogIndex + 1) args.entries).elems
  rw [GoSlice.elems_splice]
  have htake := (GoSlice.take_splice args.entries r.log.elems _ le_rfl hc).2
  rw [List.take_length] at htake
  exact List.prefix_iff_eq_take.mpr htake.symm

theorem Kept.appendEntries {args : AppendEntriesArgs} (h : Kept r)
    (hc : r.Accepts args → GoSlice.NoConflict LogEntry.term r.log.elems (args.prevLogIndex + 1)
      args.entries r.log.len) : Kept (r.appendEntries args).1 := by
  by_cases hacc : r.Accepts args
  · rw [appendEntries_accept hacc]
    have hlog := r.observeTerm_log args.term
    exact (h.observeTerm args.term).acceptEntries (by rw [hlog]; exact hc hacc)
  · rcases (appendEntries_refuse_node hacc).1 with hnode | hnode
    · rw [hnode]
      exact h
    · rw [hnode]
      exact h.observeTerm args.term

/-- **A clean restart keeps the journal** if the whole log is recorded. -/
theorem Kept.newRaftNode (h : Kept r) (hclean : r.Clean)
    (hrecord : r.journal.record = r.lastIndex) (self : String) (peers : List String) :
    Kept (newRaftNode self peers r.dataDir r.disk) := by
  obtain ⟨-, st, hst, -⟩ := clean_iff.mp hclean
  have hjournal := journal_newRaftNode h.dataDir (Option.isSome_of_mem hst) self peers
  have hload := loaded_newRaftNode h.dataDir hst self peers
  have hrecord' : r.journal.record = r.journal.list.length :=
    hrecord.trans r.length_journal.symm
  exact
    { dataDir := by
        rw [hload.dataDir]
        exact h.dataDir
      head := ⟨_, hload.log⟩
      synced := by
        rw [hjournal]
        exact h.synced.load h.full hrecord'
      full := by
        rw [hjournal, h.synced.load_list h.full]
        exact hrecord' }

end growing

end RaftNode

/-! ## Runs -/

namespace Proc

/-- The runs that restart is about: no snapshot is installed, and the process
restarts only after a completed `saveState`. -/
def Orderly (p : Proc) (ev : Event) (_ : Proc) : Prop :=
  match ev with
  | .installSnapshot _ _ _ => False
  | .restart => p.node.Clean
  | .dieServing _ => False
  | _ => True

/-- Those of them that keep the log file: no `AppendEntries` cuts the log, and
at a restart the `PersistedIndex` in the state file is the last index. -/
def Conserving (p : Proc) (ev : Event) (p' : Proc) : Prop :=
  p.Orderly ev p' ∧
    match ev with
    | .appendEntries _ _ args =>
      p.node.Accepts args →
        GoSlice.NoConflict LogEntry.term p.node.log.elems (args.prevLogIndex + 1) args.entries
          p.node.log.len
    | .restart => p.node.journal.record = p.node.lastIndex
    | _ => True

instance (p : Proc) (ev : Event) (p' : Proc) : Decidable (p.Orderly ev p') := by
  apply Event.casesOn (motive := fun ev => Decidable (p.Orderly ev p')) ev <;> intros <;>
    unfold Orderly <;> infer_instance

instance (p : Proc) (ev : Event) (p' : Proc) : Decidable (p.Conserving ev p') := by
  apply Event.casesOn (motive := fun ev => Decidable (p.Conserving ev p')) ev <;> intros <;>
    unfold Conserving <;> infer_instance

end Proc

section runs

variable [GrowthPolicy]

/-- An operation that cuts no log leaves the whole log in its file. -/
theorem NodeOp.kept {p p' : Proc} {ev : Event} {r : RaftNode} (hop : NodeOp p ev r)
    (h : p.node.Kept) (hguard : p.Conserving ev p') : r.Kept := by
  cases hop with
  | same _ => exact h
  | startElection _ _ id => exact h.startElection id
  | requestVote caller id args => exact h.requestVote args
  | voteReply id peer reply e _ => exact h.handleVoteReply e peer reply
  | sendAppendEntries peer _ => exact h.normalizeNext peer
  | appendEntries caller id args => exact h.appendEntries hguard.2
  | appendReply id reply c _ _ => exact h.handleAppendReply c reply
  | installSnapshot caller id args => exact hguard.1.elim
  | snapshotReply id reply c _ => exact h.handleSnapshotReply c reply
  | submitCommand topic partition data => exact h.submitCommand topic partition data
  | applyCommittedEntries => exact h.applyLoop _
  | checkISR => exact h.checkISR
  | changeConfig addr add => exact h.changeConfig addr add
  | appendStableConfig => exact h.appendStableConfig
  | restart _ hev r hr =>
    -- only a clean restart is left, with the whole log recorded
    cases ev with
    | restart =>
      obtain rfl : r = p.node := hr.resolve_right fun hno => hno.1 rfl
      exact h.newRaftNode hguard.1 hguard.2 _ _
    | dieServing request => exact hguard.1.elim
    | _ => exact hev.elim

theorem kept_boot {dir : String} (hdir : dir ≠ "") (self : String) (peers : List String) :
    (Proc.boot self peers dir {}).node.Kept := by
  obtain ⟨ps, cc, isr, h⟩ := addPeers_shape self peers (blankNode self dir {})
  have hnode : newRaftNode self peers dir {} =
      { blankNode self dir {} with peers := ps, currentConfig := cc, isr := isr } := by
    rw [newRaftNode, h, RaftNode.loadState]
    exact if_neg hdir
  show (newRaftNode self peers dir {}).Kept
  rw [hnode]
  exact (RaftNode.kept_blank hdir self).of_eq rfl rfl rfl rfl

/-- **Restart.** Start a node on an empty directory and let it serve any events,
with clean restarts in between. If no `AppendEntries` has cut the log and every
restart so far has found the whole log recorded, then a clean restart gives
back the log, the term, the vote and the commit index. -/
theorem restart_keeps_log {self : String} {peers : List String} {dir : String} (hdir : dir ≠ "")
    {p : Proc} (hrun : Run Proc.next Proc.Conserving (Proc.boot self peers dir {}) p)
    (hclean : p.node.Clean) :
    p.restart.node.log.elems = p.node.log.elems ∧
      p.restart.node.currentTerm = p.node.currentTerm ∧
      p.restart.node.votedFor = p.node.votedFor ∧
      p.restart.node.commitIndex = p.node.commitIndex := by
  have hkept : p.node.Kept := by
    refine hrun.invariant (P := fun q => q.node.Kept) (kept_boot hdir self peers) ?_
    intro q ev q' hq hguard hst
    exact (Proc.next_nodeOp hst).kept hq hguard
  obtain ⟨-, st, hst, bytes, -, hsaved, -⟩ := RaftNode.clean_iff.mp hclean
  have hload := RaftNode.loaded_newRaftNode hkept.dataDir hst p.node.selfAddr p.peerList
  refine ⟨?_, ?_, ?_, ?_⟩
  · obtain ⟨es, hes⟩ := hkept.head
    have hfile : p.node.journal.file = p.node.log.elems.tail := hkept.synced.load_list hkept.full
    calc p.restart.node.log.elems = sentinel :: p.node.journal.file := hload.log
      _ = p.node.log.elems := by rw [hfile, hes, List.tail_cons]
  · exact hload.currentTerm.trans (congrArg SavedState.currentTerm hsaved)
  · exact hload.votedFor.trans (congrArg SavedState.votedFor hsaved)
  · exact hload.commitIndex.trans (congrArg SavedState.commitIndex hsaved)

end runs

section traces

open scoped GrowthPolicy

/-- A node of three on an empty directory. -/
def Proc.follower : Proc := Proc.boot "a" ["b", "c"] "data" {}

/-- The leader of a term sends entries behind `prev`, which are all of term 1. -/
def Proc.receives (term prev : ℕ) (entries : List LogEntry) : Event :=
  .appendEntries "b" 0
    { term := term, leaderId := "b", prevLogIndex := prev
      prevLogTerm := if prev = 0 then 0 else 1
      entries := entries, leaderCommit := 0 }

/-- An entry is saved, the process restarts, a heartbeat saves the entry again,
and the next restart finds it twice in the log file. -/
theorem restart_doubles_entry :
    ∃ p, Run Proc.next Proc.Orderly Proc.follower p ∧ p.node.Clean ∧
      p.node.log.elems = [sentinel, { term := 1, index := 1 }] ∧
      p.restart.node.log.elems =
        [sentinel, { term := 1, index := 1 }, { term := 1, index := 1 }] :=
  exists_run_of_execWith
    [Proc.receives 1 0 [{ term := 1, index := 1 }], .restart, Proc.receives 1 1 []]
    (by decide +kernel)

-- The entry that the leader of term 2 has replaced comes back.
example :
    ∃ p, Run Proc.next Proc.Orderly Proc.follower p ∧ p.node.Clean ∧
      p.node.log.elems = [sentinel, { term := 2, index := 1 }] ∧
      p.restart.node.log.elems = [sentinel, { term := 1, index := 1 }] :=
  exists_run_of_execWith
    [Proc.receives 1 0 [{ term := 1, index := 1 }], Proc.receives 2 0 [{ term := 2, index := 1 }]]
    (by decide +kernel)

/-- With a heartbeat in front of each restart nothing is doubled. -/
theorem restart_keeps_log_two :
    ∃ p, Run Proc.next Proc.Conserving Proc.follower p ∧ p.node.Clean ∧
      p.node.log.elems = [sentinel, { term := 1, index := 1 }, { term := 1, index := 2 }] ∧
      (p.restart.node.log.elems = p.node.log.elems ∧
        p.restart.node.currentTerm = p.node.currentTerm ∧
        p.restart.node.votedFor = p.node.votedFor ∧
        p.restart.node.commitIndex = p.node.commitIndex) := by
  obtain ⟨p, hrun, hclean, hlog⟩ : ∃ p, Run Proc.next Proc.Conserving Proc.follower p ∧
      p.node.Clean ∧
      p.node.log.elems = [sentinel, { term := 1, index := 1 }, { term := 1, index := 2 }] :=
    exists_run_of_execWith
      [Proc.receives 1 0 [{ term := 1, index := 1 }], Proc.receives 1 1 [], .restart,
        Proc.receives 1 1 [{ term := 1, index := 2 }]]
      (by decide +kernel)
  exact ⟨p, hrun, hclean, hlog, restart_keeps_log (by decide) hrun hclean⟩

end traces

end DistributedMQ.Raft
