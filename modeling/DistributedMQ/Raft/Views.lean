import DistributedMQ.Raft.NodeOp
import DistributedMQ.Raft.LogSteps

/-!
# Log, apply position and membership along a run

Most operations of a node leave its log, its apply position and its membership
maps (`Views`) alone. The others are put together from a few moves: append
an own entry, begin a configuration change, merge the entries of a request,
apply the next entry.

- `ViewRule P Q M`: `P` survives each of the moves, where an entry is applied
  only if `Q` and a request is merged only if `M`.
- `ViewRule.next`: then `P` survives every event other than a restart or an
  installed snapshot; only an apply loop that runs behind the end of the log
  gets away from it, and takes the process down.
-/

namespace DistributedMQ.Raft

open Machine

namespace RaftNode

/-! ## `InstallSnapshot` -/

/-- The request passes the checks of `InstallSnapshot`. -/
def Installs (r : RaftNode) (args : InstallSnapshotArgs) : Prop :=
  r.currentTerm ≤ args.term ∧ r.commitIndex < args.lastIncludedIndex

instance (r : RaftNode) (args : InstallSnapshotArgs) : Decidable (r.Installs args) :=
  inferInstanceAs (Decidable (_ ∧ _))

theorem observeTerm_commitIndex (r : RaftNode) (term : ℕ) :
    (r.observeTerm term).commitIndex = r.commitIndex := by
  rw [observeTerm]
  split
  · simp [becomeFollower, closePending]
  · rfl

theorem installSnapshot_accept [GrowthPolicy] {r : RaftNode} {args : InstallSnapshotArgs}
    (h : r.Installs args) :
    (r.installSnapshot args).1 = (r.observeTerm args.term).acceptSnapshot args := by
  obtain ⟨hterm, hindex⟩ := h
  have hcommit : ¬args.lastIncludedIndex ≤ (r.observeTerm args.term).commitIndex := by
    rw [observeTerm_commitIndex]
    exact not_le.mpr hindex
  rw [installSnapshot, if_neg (not_lt.mpr hterm)]
  dsimp only
  rw [if_neg hcommit]

/-- A request that is not installed leaves at most a newer term behind. -/
theorem installSnapshot_refuse [GrowthPolicy] {r : RaftNode} {args : InstallSnapshotArgs}
    (h : ¬r.Installs args) :
    (r.installSnapshot args).1 = r ∨
      (r.installSnapshot args).1 = r.observeTerm args.term := by
  rw [installSnapshot]
  split
  · exact Or.inl rfl
  rename_i hterm
  have hcommit : args.lastIncludedIndex ≤ (r.observeTerm args.term).commitIndex := by
    rw [observeTerm_commitIndex]
    exact not_lt.mp fun hlt => h ⟨not_lt.mp hterm, hlt⟩
  dsimp only
  rw [if_pos hcommit]
  exact Or.inr rfl

/-! ## Operations that leave the views alone -/

/-- The log, how far it is applied and sent, and the membership maps. -/
structure Views where
  log : GoSlice LogEntry
  lastApplied : ℕ
  applyCh : Option (List LogEntry)
  selfAddr : String
  peers : GoMap String Peer
  currentConfig : GoMap String Bool
  newConfig : Option (GoMap String Bool)
  configState : ConfigState

def views (r : RaftNode) : Views :=
  ⟨r.log, r.lastApplied, r.applyCh, r.selfAddr, r.peers, r.currentConfig, r.newConfig,
    r.configState⟩

section

variable {r r' : RaftNode} (h : r'.views = r.views)

include h

theorem log_of_views : r'.log = r.log := congrArg Views.log h

theorem lastApplied_of_views : r'.lastApplied = r.lastApplied := congrArg Views.lastApplied h

theorem applyCh_of_views : r'.applyCh = r.applyCh := congrArg Views.applyCh h

theorem selfAddr_of_views : r'.selfAddr = r.selfAddr := congrArg Views.selfAddr h

theorem peers_of_views : r'.peers = r.peers := congrArg Views.peers h

theorem currentConfig_of_views : r'.currentConfig = r.currentConfig := congrArg Views.currentConfig h

theorem newConfig_of_views : r'.newConfig = r.newConfig := congrArg Views.newConfig h

theorem configState_of_views : r'.configState = r.configState := congrArg Views.configState h

end

variable (r : RaftNode)

theorem views_saveState : r.saveState.views = r.views := by
  obtain ⟨d, p, h⟩ := r.saveState_shape
  rw [h]
  rfl

theorem views_becomeFollower (term : ℕ) : (r.becomeFollower term).views = r.views := by
  obtain ⟨d, p, h⟩ := r.becomeFollower_shape term
  rw [h]
  rfl

theorem views_observeTerm (term : ℕ) : (r.observeTerm term).views = r.views := by
  rw [observeTerm]
  split
  · exact r.views_becomeFollower term
  · rfl

theorem views_startElection (id : ℕ) : (r.startElection id).1.views = r.views := by
  rw [startElection]
  split
  · exact views_saveState _
  · exact views_saveState _

theorem views_requestVote (args : RequestVoteArgs) : (r.requestVote args).1.views = r.views := by
  rw [requestVote]
  split
  · rfl
  dsimp only
  split
  · exact (views_saveState _).trans (r.views_observeTerm args.term)
  · exact r.views_observeTerm args.term

theorem views_handleVoteReply (e : Election) (peer : String) (reply : RequestVoteReply) :
    (r.handleVoteReply e peer reply).1.views = r.views := by
  rw [handleVoteReply]
  dsimp only
  split
  · exact r.views_becomeFollower reply.term
  split
  · split
    · rfl
    · rfl
  · rfl

theorem views_updateCommitIndex : r.updateCommitIndex.views = r.views := by
  obtain ⟨n, pc, cc, h⟩ := commitLoop_shape r.log.len r
  rw [updateCommitIndex, h]
  rfl

theorem views_handleAppendReply (c : AppendCall) (reply : AppendEntriesReply) :
    (r.handleAppendReply c reply).views = r.views := by
  rw [handleAppendReply]
  split
  · exact r.views_becomeFollower reply.term
  split
  · rfl
  split
  · exact views_updateCommitIndex _
  split
  · rfl
  · rfl

theorem views_handleSnapshotReply (c : SnapshotCall) (reply : InstallSnapshotReply) :
    (r.handleSnapshotReply c reply).views = r.views := by
  rw [handleSnapshotReply]
  split
  · exact r.views_becomeFollower reply.term
  split
  · rfl
  · rfl

theorem views_checkISR : r.checkISR.views = r.views := by
  rw [checkISR]
  split
  · rfl
  · rfl

theorem views_normalizeNext (peer : String) : (r.normalizeNext peer).views = r.views := by
  rw [normalizeNext]
  split
  · rfl
  · rfl

/-! ## The apply loop -/

theorem applyEntry_lastApplied (entry : LogEntry) :
    (r.applyEntry entry).lastApplied = r.lastApplied := by
  obtain ⟨ch, ps, isr, ni, mi, cc, nc, cs, h⟩ := r.applyEntry_shape entry
  rw [h]

theorem applyEntry_commitIndex (entry : LogEntry) :
    (r.applyEntry entry).commitIndex = r.commitIndex := by
  obtain ⟨ch, ps, isr, ni, mi, cc, nc, cs, h⟩ := r.applyEntry_shape entry
  rw [h]

theorem applyEntry_log (entry : LogEntry) : (r.applyEntry entry).log = r.log := by
  obtain ⟨ch, ps, isr, ni, mi, cc, nc, cs, h⟩ := r.applyEntry_shape entry
  rw [h]

variable {r}

theorem applyEntry_config {entry : LogEntry}
    (h : entry.type = .jointConsensus ∨ entry.type = .confChange) :
    r.applyEntry entry = r.applyConfigChangeLocked entry := if_pos h

theorem applyEntry_data {entry : LogEntry}
    (h : ¬(entry.type = .jointConsensus ∨ entry.type = .confChange)) :
    r.applyEntry entry = { r with applyCh := r.applyCh.map fun sent => sent ++ [entry] } :=
  if_neg h

theorem applyLoop_succ {k : ℕ} {entry : LogEntry}
    (h : r.log.elems[r.lastApplied + 1]? = some entry) :
    applyLoop (k + 1) r =
      applyLoop k ({ r with lastApplied := r.lastApplied + 1 }.applyEntry entry) := by
  rw [applyLoop, h]

/-- Inside the log the loop does not panic. -/
theorem applyLoop_alive : ∀ (k : ℕ) (r : RaftNode), r.lastApplied + k < r.log.len →
    (applyLoop k r).2 = true := by
  intro k
  induction k with
  | zero => exact fun _ _ => rfl
  | succ k ih =>
    intro r h
    have hlt : r.lastApplied + 1 < r.log.elems.length :=
      (Nat.add_le_add_left (Nat.le_add_left 1 k) _).trans_lt h
    obtain ⟨entry, hentry⟩ : ∃ entry, r.log.elems[r.lastApplied + 1]? = some entry :=
      ⟨_, List.getElem?_eq_getElem hlt⟩
    rw [applyLoop_succ hentry]
    obtain ⟨ch, ps, isr, ni, mi, cc, nc, cs, hshape⟩ :=
      applyEntry_shape { r with lastApplied := r.lastApplied + 1 } entry
    refine ih _ ?_
    rw [hshape]
    show r.lastApplied + 1 + k < r.log.len
    omega

/-- Nor does `applyCommittedEntries` with a commit index inside the log. -/
theorem applyCommittedEntries_alive (h : r.commitIndex < r.log.len) :
    r.applyCommittedEntries.2 = true := by
  rw [applyCommittedEntries]
  rcases Nat.le_total r.commitIndex r.lastApplied with hle | hle
  · rw [Nat.sub_eq_zero_of_le hle]
    rfl
  · refine applyLoop_alive _ r ?_
    rw [Nat.add_sub_cancel' hle]
    exact h

/-- `Q` holds of every entry the loop applies, in the state it is applied in. -/
def AppliesAll (Q : RaftNode → LogEntry → Prop) : ℕ → RaftNode → Prop
  | 0, _ => True
  | k + 1, r =>
    match r.log.elems[r.lastApplied + 1]? with
    | none => True
    | some entry =>
      Q r entry ∧ AppliesAll Q k ({ r with lastApplied := r.lastApplied + 1 }.applyEntry entry)

theorem appliesAll_true (k : ℕ) (r : RaftNode) : AppliesAll (fun _ _ => True) k r := by
  induction k generalizing r with
  | zero => trivial
  | succ k ih =>
    rw [AppliesAll]
    split
    · trivial
    · exact ⟨trivial, ih _⟩

end RaftNode

/-! ## Staying inside the log -/

section bound

variable {r r' : RaftNode}

namespace RaftNode

/-- The request does not overwrite an applied entry. -/
def KeepsApplied (r : RaftNode) (args : AppendEntriesArgs) : Prop :=
  GoSlice.NoConflict LogEntry.term r.log.elems (args.prevLogIndex + 1) args.entries
    (r.lastApplied + 1)

instance (r : RaftNode) (args : AppendEntriesArgs) : Decidable (r.KeepsApplied args) :=
  inferInstanceAs (Decidable (GoSlice.NoConflict ..))

theorem KeepsApplied.observeTerm {args : AppendEntriesArgs} (h : r.KeepsApplied args) :
    (r.observeTerm args.term).KeepsApplied args := by
  have hviews := r.views_observeTerm args.term
  rw [KeepsApplied, log_of_views hviews, lastApplied_of_views hviews]
  exact h

/-- What has been applied stays where it is, and the log does not end before it. -/
theorem KeepsApplied.take_splice [GrowthPolicy] {args : AppendEntriesArgs}
    (h : r.KeepsApplied args) (hlt : r.lastApplied < r.log.len) :
    r.lastApplied < (r.log.splice LogEntry.term (args.prevLogIndex + 1) args.entries).len ∧
      (r.log.splice LogEntry.term (args.prevLogIndex + 1) args.entries).elems.take
        (r.lastApplied + 1) = r.log.elems.take (r.lastApplied + 1) := by
  have hkeep := GoSlice.take_splice args.entries r.log.elems _ hlt h
  rw [GoSlice.len, GoSlice.elems_splice]
  exact hkeep

theorem lt_len_append [GrowthPolicy] (h : r.lastApplied < r.log.len) (e : LogEntry) :
    r.lastApplied < (r.log.append e).len := by
  rw [GoSlice.len, GoSlice.elems_append, List.length_append]
  exact h.trans_le (Nat.le_add_right _ _)

end RaftNode

end bound

/-! ## The rule -/

namespace Proc

variable [GrowthPolicy]

/-- The node on which the event runs the apply loop. -/
def applying (p : Proc) : Event → Option RaftNode
  | .applyCommittedEntries => some p.node
  | .submitCommand topic partition data =>
    if p.node.state = .leader ∧ p.node.peers.keys = [] then
      some { p.node.appendOwn (p.node.commandEntry topic partition data) with
        commitIndex := p.node.log.len }
    else none
  | .appendEntries _ _ args =>
    let r := p.node.observeTerm args.term
    if p.node.Accepts args ∧ r.commitIndex < args.leaderCommit then
      let log := r.log.splice LogEntry.term (args.prevLogIndex + 1) args.entries
      some { r with log := log, commitIndex := min args.leaderCommit (log.len - 1) }
    else none
  | _ => none

/-- The process is not restarted. -/
def Unbroken (_ : Proc) (ev : Event) (_ : Proc) : Prop := ¬ev.Restarts

instance (p : Proc) (ev : Event) (p' : Proc) : Decidable (p.Unbroken ev p') :=
  inferInstanceAs (Decidable (¬ev.Restarts))

variable {p p' : Proc} {ev : Event}

/-- A process that has died does nothing until it is restarted. -/
theorem alive_of_next (h : p.next ev = some p') (hev : ¬ev.Restarts) : p.alive = true := by
  obtain ⟨⟨q, out⟩, hstep, -⟩ := Option.map_eq_some_iff.mp h
  by_contra hdead
  unfold step at hstep
  rw [if_neg hdead] at hstep
  cases ev with
  | restart => exact hev trivial
  | _ => cases hstep

/-- A restart starts from the files of the node, or from those of the node after
it has saved a newer term. -/
theorem next_restarts (h : p.next ev = some p') (hev : ev.Restarts) :
    ∃ r, (r = p.node ∨ ∃ term, r = p.node.observeTerm term) ∧
      p' = { p with node := r }.restart := by
  obtain ⟨out, hcase⟩ := next_cases h
  cases hcase with
  | restart => exact ⟨p.node, Or.inl rfl, rfl⟩
  | dieServing request term hterm => exact ⟨_, Or.inr ⟨term, rfl⟩, rfl⟩
  | _ => exact hev.elim

/-- A panic of the apply loop takes the process down. -/
theorem next_applyCommittedEntries (h : p.next .applyCommittedEntries = some p') :
    p'.node = p.node.applyCommittedEntries.1 ∧ p'.alive = p.node.applyCommittedEntries.2 := by
  obtain ⟨out, hcase⟩ := next_cases h
  cases hcase
  exact ⟨rfl, rfl⟩

theorem next_installSnapshot {caller : String} {id : ℕ} {args : InstallSnapshotArgs}
    (h : p.next (.installSnapshot caller id args) = some p') :
    p'.node = (p.node.installSnapshot args).1 := by
  obtain ⟨out, hcase⟩ := next_cases h
  cases hcase
  rfl

theorem next_submitCommand {topic : String} {partition : ℤ} {data : List UInt8}
    (h : p.next (.submitCommand topic partition data) = some p') :
    p'.node = (p.node.submitCommand topic partition data).1 := by
  obtain ⟨out, hcase⟩ := next_cases h
  cases hcase
  rfl

theorem next_changeConfig {addr : String} {add : Bool}
    (h : p.next (.changeConfig addr add) = some p') : p'.node = p.node.changeConfig addr add := by
  obtain ⟨out, hcase⟩ := next_cases h
  cases hcase
  rfl

theorem next_appendStableConfig (h : p.next .appendStableConfig = some p') :
    p'.node = p.node.appendStableConfig := by
  obtain ⟨out, hcase⟩ := next_cases h
  cases hcase
  rfl

end Proc

/-- A property of the views that survives each move. -/
structure ViewRule [GrowthPolicy] (P : RaftNode → Prop) (Q : RaftNode → LogEntry → Prop)
    (M : RaftNode → AppendEntriesArgs → Prop) : Prop where
  frame : ∀ {r r' : RaftNode}, r'.views = r.views → P r → P r'
  /-- Commands and the second entry of a configuration change. -/
  own : ∀ {r : RaftNode} {e : LogEntry}, P r → e.type ≠ .jointConsensus →
    (e.type = .confChange → e.config.isSome) → P { r with log := r.log.append e }
  change : ∀ {r : RaftNode} {e : LogEntry} {new : GoMap String Bool}, P r →
    e.type = .jointConsensus → e.config.isSome →
      P { r with newConfig := some new, configState := .joint, log := r.log.append e }
  merge : ∀ {r : RaftNode} {args : AppendEntriesArgs}, P r → M r args →
    P { r with log := r.log.splice LogEntry.term (args.prevLogIndex + 1) args.entries }
  apply : ∀ {r : RaftNode} {e : LogEntry}, P r → r.log.elems[r.lastApplied + 1]? = some e →
    Q r e → P ({ r with lastApplied := r.lastApplied + 1 }.applyEntry e)

namespace ViewRule

open RaftNode

variable [GrowthPolicy] {P : RaftNode → Prop} {Q : RaftNode → LogEntry → Prop}
  {M : RaftNode → AppendEntriesArgs → Prop} {r : RaftNode}

/-- The loop keeps `P`, up to the step that panics. -/
theorem applyLoop (rule : ViewRule P Q M) : ∀ (k : ℕ) (r : RaftNode), P r → AppliesAll Q k r →
    P (applyLoop k r).1 ∨ (applyLoop k r).2 = false ∧ ∃ r', P r' ∧
      r'.log.elems[r'.lastApplied + 1]? = none ∧
      (applyLoop k r).1 = { r' with lastApplied := r'.lastApplied + 1 } := by
  intro k
  induction k with
  | zero => exact fun _ h _ => Or.inl h
  | succ k ih =>
    intro r h hall
    cases hentry : r.log.elems[r.lastApplied + 1]? with
    | none =>
      rw [RaftNode.applyLoop, hentry]
      exact Or.inr ⟨rfl, r, h, hentry, rfl⟩
    | some entry =>
      rw [AppliesAll, hentry] at hall
      rw [applyLoop_succ hentry]
      exact ih _ (rule.apply h hentry hall.1) hall.2

theorem applyCommittedEntries (rule : ViewRule P Q M) (h : P r)
    (hall : AppliesAll Q (r.commitIndex - r.lastApplied) r) (hlt : r.commitIndex < r.log.len) :
    P r.applyCommittedEntries.1 := by
  rcases rule.applyLoop _ r h hall with hP | ⟨hdead, -⟩
  · exact hP
  · exact absurd (hdead.symm.trans (applyCommittedEntries_alive hlt)) Bool.false_ne_true

theorem appendOwn (rule : ViewRule P Q M) {e : LogEntry} (h : P r) (htype : e.type ≠ .jointConsensus)
    (hconf : e.type = .confChange → e.config.isSome) : P (r.appendOwn e) :=
  rule.frame (views_saveState _) (rule.own h htype hconf)

theorem submitCommand (rule : ViewRule P Q M) {topic : String} {partition : ℤ} {data : List UInt8}
    (h : P r) (hall : r.state = .leader → r.peers.keys = [] →
      let r' := { r.appendOwn (r.commandEntry topic partition data) with commitIndex := r.log.len }
      AppliesAll Q (r'.commitIndex - r'.lastApplied) r') :
    P (r.submitCommand topic partition data).1 := by
  have hown : P (r.appendOwn (r.commandEntry topic partition data)) :=
    rule.appendOwn h (nofun) (nofun)
  rw [RaftNode.submitCommand]
  split
  case isFalse => exact h
  case isTrue hlead =>
  dsimp only
  split
  case isFalse =>
    refine rule.frame ?_ hown
    rfl
  case isTrue hpeers =>
    -- without peers the commit index is the new last index
    have hcommitted : P { r.appendOwn (r.commandEntry topic partition data) with
        commitIndex := r.log.len } := by
      refine rule.frame ?_ hown
      rfl
    have hlt : r.log.len < (r.appendOwn (r.commandEntry topic partition data)).log.len := by
      simp [RaftNode.appendOwn, GoSlice.len]
    have hnil : r.peers.keys = [] := by simpa [RaftNode.appendOwn] using hpeers
    refine rule.frame ?_ (rule.applyCommittedEntries hcommitted (hall hlead hnil) hlt)
    rfl

theorem acceptEntries (rule : ViewRule P Q M) {args : AppendEntriesArgs} (h : P r)
    (hmerge : M r args) (hall : r.commitIndex < args.leaderCommit →
      let log := r.log.splice LogEntry.term (args.prevLogIndex + 1) args.entries
      let r' := { r with log := log, commitIndex := min args.leaderCommit (log.len - 1) }
      AppliesAll Q (r'.commitIndex - r'.lastApplied) r')
    (hlen : 0 < (r.log.splice LogEntry.term (args.prevLogIndex + 1) args.entries).len) :
    P (r.acceptEntries args) := by
  have hmerged := rule.merge h hmerge
  rw [RaftNode.acceptEntries]
  refine rule.frame (views_saveState _) ?_
  dsimp only
  split
  case isFalse => exact hmerged
  case isTrue hcommit =>
    refine rule.applyCommittedEntries (rule.frame ?_ hmerged) (hall hcommit) ?_
    · rfl
    · exact (min_le_right _ _).trans_lt (Nat.sub_lt hlen Nat.one_pos)

theorem appendEntries (rule : ViewRule P Q M) {args : AppendEntriesArgs} (h : P r)
    (hmerge : r.Accepts args → M (r.observeTerm args.term) args)
    (hall : r.Accepts args → (r.observeTerm args.term).commitIndex < args.leaderCommit →
      let o := r.observeTerm args.term
      let log := o.log.splice LogEntry.term (args.prevLogIndex + 1) args.entries
      let r' := { o with log := log, commitIndex := min args.leaderCommit (log.len - 1) }
      AppliesAll Q (r'.commitIndex - r'.lastApplied) r') :
    P (r.appendEntries args).1 := by
  have hobs : P (r.observeTerm args.term) := rule.frame (r.views_observeTerm args.term) h
  by_cases hacc : r.Accepts args
  · rw [appendEntries_accept hacc]
    refine rule.acceptEntries hobs (hmerge hacc) (hall hacc) ?_
    -- the walk starts behind `prevLogIndex`, so what is before it stays
    have hprev : args.prevLogIndex + 1 ≤ r.log.elems.length := hacc.2.1
    have hfree : GoSlice.NoConflict LogEntry.term r.log.elems (args.prevLogIndex + 1)
        args.entries (args.prevLogIndex + 1) := fun _ _ _ _ hlt _ => absurd hlt (by omega)
    have hkeep := GoSlice.take_splice args.entries r.log.elems _ hprev hfree
    show 0 < ((r.observeTerm args.term).log.splice _ _ _).elems.length
    rw [GoSlice.elems_splice, observeTerm_log]
    exact (Nat.succ_pos _).trans_le hkeep.1
  · rcases (appendEntries_refuse_node hacc).1 with hnode | hnode
    · rw [hnode]
      exact h
    · rw [hnode]
      exact hobs

theorem changeConfig (rule : ViewRule P Q M) (h : P r) (addr : String) (add : Bool) :
    P (r.changeConfig addr add) := by
  rw [RaftNode.changeConfig]
  exact rule.frame (views_saveState _) (rule.change (r := r) h rfl rfl)

theorem appendStableConfig (rule : ViewRule P Q M) (h : P r) : P r.appendStableConfig := by
  rw [RaftNode.appendStableConfig]
  split
  · exact h
  · exact rule.appendOwn h (nofun) (fun _ => rfl)

theorem installSnapshot (rule : ViewRule P Q M) {args : InstallSnapshotArgs} (h : P r)
    (hno : ¬r.Installs args) : P (r.installSnapshot args).1 := by
  rcases installSnapshot_refuse hno with hnode | hnode
  · rw [hnode]
    exact h
  · rw [hnode]
    exact rule.frame (r.views_observeTerm args.term) h

/-- **Step.** `P` survives an event, or the apply loop has run behind the end of
the log and the process is dead. -/
theorem next (rule : ViewRule P Q M) {p p' : Proc} {ev : Event} (h : P p.node)
    (hst : p.next ev = some p') (hev : ¬ev.Restarts)
    (hinstall : ∀ c i args, ev = .installSnapshot c i args → ¬p.node.Installs args)
    (hmerge : ∀ c i args, ev = .appendEntries c i args → p.node.Accepts args →
      M (p.node.observeTerm args.term) args)
    (hall : ∀ r, p.applying ev = some r → AppliesAll Q (r.commitIndex - r.lastApplied) r) :
    P p'.node ∨ p'.alive = false ∧ ∃ r, P r ∧ r.log.elems[r.lastApplied + 1]? = none ∧
      p'.node = { r with lastApplied := r.lastApplied + 1 } := by
  by_cases happly : ev = .applyCommittedEntries
  · subst happly
    obtain ⟨hnode, halive⟩ := Proc.next_applyCommittedEntries hst
    rw [hnode, halive]
    exact rule.applyLoop _ p.node h (hall p.node rfl)
  refine Or.inl ?_
  generalize hr : p'.node = r
  have hop : NodeOp p ev r := hr ▸ Proc.next_nodeOp hst
  cases hop with
  | same _ => exact h
  | startElection _ _ id => exact rule.frame (p.node.views_startElection id) h
  | requestVote caller id args => exact rule.frame (p.node.views_requestVote args) h
  | voteReply id peer reply e _ => exact rule.frame (p.node.views_handleVoteReply e peer reply) h
  | sendAppendEntries peer _ => exact rule.frame (p.node.views_normalizeNext peer) h
  | appendEntries caller id args =>
    refine rule.appendEntries h (hmerge caller id args rfl) fun hacc hcommit => hall _ ?_
    exact if_pos ⟨hacc, hcommit⟩
  | appendReply id reply c _ _ => exact rule.frame (p.node.views_handleAppendReply c reply) h
  | installSnapshot caller id args => exact rule.installSnapshot h (hinstall caller id args rfl)
  | snapshotReply id reply c _ => exact rule.frame (p.node.views_handleSnapshotReply c reply) h
  | submitCommand topic partition data =>
    exact rule.submitCommand h fun hlead hpeers => hall _ (if_pos ⟨hlead, hpeers⟩)
  | applyCommittedEntries => exact absurd rfl happly
  | checkISR => exact rule.frame p.node.views_checkISR h
  | changeConfig addr add => exact rule.changeConfig h addr add
  | appendStableConfig => exact rule.appendStableConfig h
  | restart _ hre _ _ => exact absurd hre hev

/-- The same for a property that an installed snapshot does not touch either. -/
theorem next_snapshot (rule : ViewRule P Q M) {p p' : Proc} {ev : Event} (h : P p.node)
    (hst : p.next ev = some p') (hev : ¬ev.Restarts)
    (hsnap : ∀ args, P (p.node.installSnapshot args).1)
    (hmerge : ∀ c i args, ev = .appendEntries c i args → p.node.Accepts args →
      M (p.node.observeTerm args.term) args)
    (hall : ∀ r, p.applying ev = some r → AppliesAll Q (r.commitIndex - r.lastApplied) r) :
    P p'.node ∨ p'.alive = false ∧ ∃ r, P r ∧ r.log.elems[r.lastApplied + 1]? = none ∧
      p'.node = { r with lastApplied := r.lastApplied + 1 } := by
  by_cases hinstall : ∃ c i args, ev = .installSnapshot c i args
  · obtain ⟨c, i, args, rfl⟩ := hinstall
    rw [Proc.next_installSnapshot hst]
    exact Or.inl (hsnap args)
  · exact rule.next h hst hev (fun c i args heq => absurd ⟨c, i, args, heq⟩ hinstall) hmerge hall

end ViewRule

end DistributedMQ.Raft
