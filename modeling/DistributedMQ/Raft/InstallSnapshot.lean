import DistributedMQ.Raft.ApplyOrder

/-!
# What a snapshot does to a follower

`sendSnapshot` encodes the whole log, sentinel and uncommitted entries included;
`InstallSnapshot` appends what it decodes to the sentinel it has kept and takes
over the last index as commit index and as applied index.

- `snapshot_log_ne`: the follower's log is never the leader's log afterwards:
  every entry stands one index too far (`RaftNode.installSnapshot_log`).
- `snapshot_commitIndex_le_iff`: the follower's commit index stays within what
  the two nodes had committed iff the leader's log ends there or the request is
  of an old term.
- `bad_snapshot_iff`: data that break off before the last index are never refused: the log is
  given up for them. The commit index stays inside of the log iff the snapshot is not installed
  or reaches its last index.
- `applied_entries_sent`: without installed snapshots, and as long as no applied
  entry is overwritten, every applied data entry has been sent on `applyCh`.
  `snapshot_skips_entry` is a run in which a snapshot moves `lastApplied` past
  an entry that is never sent.
-/

namespace DistributedMQ.Raft

open Machine

namespace RaftNode

variable [GrowthPolicy] {r : RaftNode} {args : InstallSnapshotArgs}

/-- The snapshot goes behind the follower's own sentinel. -/
theorem installSnapshot_log (h : r.Installs args) :
    (r.installSnapshot args).1.log.elems = r.log.elems.take 1 ++ args.data.values := by
  rw [installSnapshot_accept h, acceptSnapshot, saveState_log, GoSlice.elems_appendAll,
    GoSlice.elems_trunc, observeTerm_log]

theorem installSnapshot_commitIndex (h : r.Installs args) :
    (r.installSnapshot args).1.commitIndex = args.lastIncludedIndex := by
  rw [installSnapshot_accept h, acceptSnapshot, saveState_commitIndex]

theorem installSnapshot_commitIndex_refuse (h : ¬r.Installs args) :
    (r.installSnapshot args).1.commitIndex = r.commitIndex := by
  rcases installSnapshot_refuse h with hnode | hnode
  · rw [hnode]
  · rw [hnode, observeTerm_commitIndex]

theorem installSnapshot_log_refuse (h : ¬r.Installs args) :
    (r.installSnapshot args).1.log = r.log := by
  rcases installSnapshot_refuse h with hnode | hnode
  · rw [hnode]
  · rw [hnode, observeTerm_log]

/-- A request that is not too old is answered with success, whatever its data are. -/
theorem installSnapshot_success (h : r.currentTerm ≤ args.term) :
    (r.installSnapshot args).2.success = true := by
  rw [installSnapshot, if_neg (not_lt.mpr h)]
  dsimp only
  split
  · rfl
  · rfl

omit [GrowthPolicy] in
theorem sendSnapshot_eq (h : r.sendSnapshot = some args) :
    args.term = r.currentTerm ∧ args.lastIncludedIndex = r.lastIndex ∧
      args.data.values = r.log.elems := by
  rw [sendSnapshot] at h
  split at h
  · cases h
    exact ⟨rfl, rfl, rfl⟩
  · cases h

end RaftNode

section snapshot

variable [GrowthPolicy] {leader follower : RaftNode} {args : InstallSnapshotArgs}

/-- **No round trip.** A snapshot that is installed never gives the follower the
leader's log: it has one slot more, and the sentinel of the leader stands at
index 1. -/
theorem snapshot_log_ne (hsend : leader.sendSnapshot = some args)
    (hleader : leader.log.elems.head? = some sentinel)
    (hfollower : follower.log.elems.head? = some sentinel)
    (hcommit : follower.commitIndex < leader.lastIndex)
    (hterm : follower.currentTerm ≤ leader.currentTerm) :
    (follower.installSnapshot args).1.log.elems ≠ leader.log.elems ∧
      ¬∀ (i : ℕ) (e : LogEntry),
        (follower.installSnapshot args).1.log.elems[i]? = some e → e.index = i := by
  obtain ⟨hargs, hlast, hdata⟩ := RaftNode.sendSnapshot_eq hsend
  have hinst : follower.Installs args := ⟨by rwa [hargs], by rwa [hlast]⟩
  obtain ⟨es, hes⟩ := List.head?_eq_some_iff.mp hleader
  obtain ⟨fs, hfs⟩ := List.head?_eq_some_iff.mp hfollower
  have hshift : (follower.installSnapshot args).1.log.elems = sentinel :: leader.log.elems := by
    rw [RaftNode.installSnapshot_log hinst, hdata, hfs]
    rfl
  rw [hshift]
  constructor
  · intro heq
    have hlen := congrArg List.length heq
    simp at hlen
  · intro hindex
    have hone := hindex 1 sentinel (by rw [hes]; rfl)
    cases hone

/-- **Uncommitted entries.** The follower takes the end of the leader's log for
committed, so the commit index it ends up with is one that the leader or itself
had before iff the log ends there, or the request is refused as too old. -/
theorem snapshot_commitIndex_le_iff (hsend : leader.sendSnapshot = some args) :
    (follower.installSnapshot args).1.commitIndex ≤
        max leader.commitIndex follower.commitIndex ↔
      leader.currentTerm < follower.currentTerm ∨
        leader.lastIndex ≤ max leader.commitIndex follower.commitIndex := by
  obtain ⟨hargs, hlast, -⟩ := RaftNode.sendSnapshot_eq hsend
  by_cases hinst : follower.Installs args
  · rw [RaftNode.installSnapshot_commitIndex hinst, hlast]
    have hterm : ¬leader.currentTerm < follower.currentTerm := by
      rw [← hargs]
      exact not_lt.mpr hinst.1
    exact (or_iff_right hterm).symm
  · rw [RaftNode.installSnapshot_commitIndex_refuse hinst]
    refine iff_of_true (le_max_right _ _) ?_
    by_contra hno
    push Not at hno
    refine hinst ⟨?_, ?_⟩
    · rw [hargs]
      exact hno.1
    · rw [hlast]
      exact (le_max_right _ _).trans_lt hno.2

end snapshot

/-! ## Bad data -/

/-- The entries that can be decoded, counted from index 0, end before the last index. -/
def InstallSnapshotArgs.BreaksOff (args : InstallSnapshotArgs) : Prop :=
  args.data.values.length ≤ args.lastIncludedIndex

section bad

variable [GrowthPolicy]

/-- The handler reports failure and leaves the log and its indices alone. -/
structure RaftNode.Rejects (r : RaftNode) (args : InstallSnapshotArgs) : Prop where
  reply : (r.installSnapshot args).2.success = false
  log : (r.installSnapshot args).1.log = r.log
  commitIndex : (r.installSnapshot args).1.commitIndex = r.commitIndex
  lastApplied : (r.installSnapshot args).1.lastApplied = r.lastApplied
  persistedIndex : (r.installSnapshot args).1.persistedIndex = r.persistedIndex

theorem RaftNode.not_rejects {r : RaftNode} {args : InstallSnapshotArgs} (h : r.Installs args) :
    ¬ r.Rejects args := by
  intro hrejects
  have hfailure := hrejects.reply
  rw [installSnapshot_success h.1] at hfailure
  cases hfailure

/-- **Bad snapshots.** No node and no request that is newer than the commit index makes the
handler refuse data that break off. And the commit index stays inside of the log iff the request
is not installed, or its entries, behind the sentinel that is kept, reach the last index. -/
theorem bad_snapshot_iff (r : RaftNode) (args : InstallSnapshotArgs) :
    ((r.Installs args → args.BreaksOff → r.Rejects args) ↔
        ¬(r.Installs args ∧ args.BreaksOff)) ∧
      (r.commitIndex < r.log.len →
        ((r.installSnapshot args).1.commitIndex < (r.installSnapshot args).1.log.len ↔
          ¬ r.Installs args ∨ args.lastIncludedIndex ≤ args.data.values.length)) := by
  constructor
  · constructor
    · rintro hrejects ⟨hinst, hbad⟩
      exact RaftNode.not_rejects hinst (hrejects hinst hbad)
    · intro hno hinst hbad
      exact absurd ⟨hinst, hbad⟩ hno
  · intro hcommit
    by_cases hinst : r.Installs args
    · have hlen : (r.installSnapshot args).1.log.len = 1 + args.data.values.length := by
        have hpos : 1 ≤ r.log.elems.length := (Nat.zero_le r.commitIndex).trans_lt hcommit
        show (r.installSnapshot args).1.log.elems.length = _
        rw [RaftNode.installSnapshot_log hinst, List.length_append, List.length_take,
          Nat.min_eq_left hpos]
      rw [RaftNode.installSnapshot_commitIndex hinst, hlen, or_iff_right (not_not.mpr hinst)]
      omega
    · rw [RaftNode.installSnapshot_commitIndex_refuse hinst,
        RaftNode.installSnapshot_log_refuse hinst]
      exact iff_of_true hcommit (Or.inl hinst)

end bad

section traces

open scoped GrowthPolicy

/-- A node alone takes up leadership, adds `b`, commits the change with a first
command and has a second one that it cannot commit alone. -/
def addsB : List Event :=
  [.electionTimeout, .addNode "b", .changeConfig "b" true, .submitCommand "t" 0 [1],
    .submitCommand "t" 0 [2], .sendAppendEntries "b"]

/-- The leader's log has 4 slots; the new node ends up with 5. -/
theorem snapshot_log_shifted :
    ∃ p, Run Proc.next (fun _ _ _ => True) (Proc.boot "a" [] "data" {}) p ∧
      "b" ∈ p.snapshotsDue ∧ p.node.log.len = 4 ∧
      ∃ args ∈ p.node.sendSnapshot,
        ((newRaftNode "b" ["a"] "data" {}).installSnapshot args).1.log.elems =
          sentinel :: p.node.log.elems :=
  exists_run_of_execWith addsB (by decide +kernel)

theorem snapshot_log_ne_addsB :
    ∃ (leader : RaftNode) (args : InstallSnapshotArgs), leader.sendSnapshot = some args ∧
      ((newRaftNode "b" ["a"] "data" {}).installSnapshot args).1.log.elems ≠ leader.log.elems ∧
        ¬∀ (i : ℕ) (e : LogEntry),
          ((newRaftNode "b" ["a"] "data" {}).installSnapshot args).1.log.elems[i]? = some e →
            e.index = i := by
  obtain ⟨p, -, hhead, hlast, args, hargs⟩ : ∃ p,
      Run Proc.next (fun _ _ _ => True) (Proc.boot "a" [] "data" {}) p ∧
        p.node.log.elems.head? = some sentinel ∧ p.node.lastIndex = 3 ∧
        ∃ args ∈ p.node.sendSnapshot, True :=
    exists_run_of_execWith addsB (by decide +kernel)
  have hterm : (newRaftNode "b" ["a"] "data" {}).currentTerm = 0 := by decide +kernel
  have hcommit : (newRaftNode "b" ["a"] "data" {}).commitIndex = 0 := by decide +kernel
  refine ⟨p.node, args, hargs.1, snapshot_log_ne hargs.1 hhead (by decide +kernel) ?_ ?_⟩
  · rw [hcommit, hlast]
    exact Nat.succ_pos 2
  · rw [hterm]
    exact Nat.zero_le _

/-- The leader has committed index 2; the new node commits index 3. -/
theorem snapshot_commits_uncommitted :
    ∃ p, Run Proc.next (fun _ _ _ => True) (Proc.boot "a" [] "data" {}) p ∧
      "b" ∈ p.snapshotsDue ∧ p.node.commitIndex = 2 ∧
      (newRaftNode "b" ["a"] "data" {}).commitIndex = 0 ∧
      ∃ args ∈ p.node.sendSnapshot,
        ((newRaftNode "b" ["a"] "data" {}).installSnapshot args).1.commitIndex = 3 :=
  exists_run_of_execWith addsB (by decide +kernel)

/-- Before the second command everything is committed. -/
theorem snapshot_commitIndex_le_committed :
    ∃ (leader : RaftNode) (args : InstallSnapshotArgs), leader.sendSnapshot = some args ∧
      leader.lastIndex = 2 ∧
      ((newRaftNode "b" ["a"] "data" {}).installSnapshot args).1.commitIndex ≤
        max leader.commitIndex (newRaftNode "b" ["a"] "data" {}).commitIndex := by
  obtain ⟨p, -, hlast, hcommit, args, hargs⟩ : ∃ p,
      Run Proc.next (fun _ _ _ => True) (Proc.boot "a" [] "data" {}) p ∧
        p.node.lastIndex = 2 ∧ p.node.commitIndex = 2 ∧ ∃ args ∈ p.node.sendSnapshot, True :=
    exists_run_of_execWith (addsB.take 4) (by decide +kernel)
  refine ⟨p.node, args, hargs.1, hlast, (snapshot_commitIndex_le_iff hargs.1).mpr (Or.inr ?_)⟩
  rw [hlast, hcommit]
  exact le_max_left _ _

end traces

/-! ## What has been sent -/

namespace RaftNode

/-- The data entries sent are those of the applied part of the log. -/
structure Delivering (r : RaftNode) : Prop where
  sent : r.applyCh = some (dataEntries r.log.elems r.lastApplied)
  bound : r.lastApplied < r.log.len

variable {r : RaftNode}

theorem applyEntry_sent {entry : LogEntry} {sent : List LogEntry} (h : r.applyCh = some sent) :
    (r.applyEntry entry).applyCh =
      some (sent ++ [entry].filter fun e => e.type = .data) := by
  by_cases hconf : entry.type = .jointConsensus ∨ entry.type = .confChange
  · have hnot : entry.type ≠ .data := fun hd => entry.type_data_iff.mp hd hconf
    rw [applyEntry_config hconf, applyConfigChangeLocked_applyCh, h,
      List.filter_cons_of_neg (by simpa using hnot), List.filter_nil, List.append_nil]
  · have hdata : entry.type = .data := entry.type_data_iff.mpr hconf
    rw [applyEntry_data hconf, h, List.filter_cons_of_pos (by simpa using hdata)]
    rfl

theorem viewRule_delivering [GrowthPolicy] :
    ViewRule Delivering (fun _ _ => True) KeepsApplied where
  frame := by
    intro r r' hviews h
    constructor
    · rw [applyCh_of_views hviews, log_of_views hviews, lastApplied_of_views hviews]
      exact h.sent
    · rw [log_of_views hviews, lastApplied_of_views hviews]
      exact h.bound
  own := by
    intro r e h _ _
    refine ⟨?_, lt_len_append h.bound e⟩
    show r.applyCh = some (dataEntries (r.log.append e).elems r.lastApplied)
    rw [GoSlice.elems_append, dataEntries_append h.bound]
    exact h.sent
  change := by
    intro r e new h _ _
    refine ⟨?_, lt_len_append h.bound e⟩
    show r.applyCh = some (dataEntries (r.log.append e).elems r.lastApplied)
    rw [GoSlice.elems_append, dataEntries_append h.bound]
    exact h.sent
  merge := by
    intro r args h hkeeps
    -- the applied entries are kept
    obtain ⟨hlt, htake⟩ := hkeeps.take_splice h.bound
    refine ⟨?_, hlt⟩
    show r.applyCh = some (dataEntries (r.log.splice LogEntry.term _ args.entries).elems _)
    rw [dataEntries_congr htake]
    exact h.sent
  apply := by
    intro r e h hentry _
    constructor
    · rw [applyEntry_log, applyEntry_lastApplied]
      refine (applyEntry_sent (by exact h.sent)).trans ?_
      show some _ = some (dataEntries r.log.elems (r.lastApplied + 1))
      rw [dataEntries_succ, hentry]
      rfl
    · rw [applyEntry_log, applyEntry_lastApplied]
      exact (List.getElem?_eq_some_iff.mp hentry).1

end RaftNode

/-! ## Runs -/

namespace Proc

/-- And no snapshot is installed and no applied entry overwritten. -/
def Sending (p : Proc) (ev : Event) (p' : Proc) : Prop :=
  p.Unbroken ev p' ∧
    match ev with
    | .appendEntries _ _ args =>
      p.node.Accepts args →
        GoSlice.NoConflict LogEntry.term p.node.log.elems (args.prevLogIndex + 1) args.entries
          (p.node.lastApplied + 1)
    | .installSnapshot _ _ args => ¬p.node.Installs args
    | _ => True

instance (p : Proc) (ev : Event) (p' : Proc) : Decidable (p.Sending ev p') := by
  apply Event.casesOn (motive := fun ev => Decidable (p.Sending ev p')) ev <;> intros <;>
    unfold Sending <;> infer_instance

end Proc

section runs

variable [GrowthPolicy] {p p' : Proc} {ev : Event}

/-- What has been sent along a run. A process whose apply loop has run behind
the end of the log is dead. -/
structure DeliveryInv (p : Proc) : Prop where
  sent : p.node.applyCh = some (dataEntries p.node.log.elems p.node.lastApplied)
  bound : p.alive = true → p.node.lastApplied < p.node.log.len

theorem deliveryInv_boot {self : String} {peers : List String} {dir : String} {disk : Disk}
    (hlast : (newRaftNode self peers dir disk).lastApplied = 0) :
    DeliveryInv (Proc.boot self peers dir disk) := by
  obtain ⟨es, hes⟩ := newRaftNode_log self peers dir disk
  constructor
  · show (newRaftNode self peers dir disk).applyCh = some (dataEntries
      (newRaftNode self peers dir disk).log.elems (newRaftNode self peers dir disk).lastApplied)
    rw [newRaftNode_applyCh, hlast]
    rfl
  · intro _
    show (newRaftNode self peers dir disk).lastApplied <
      (newRaftNode self peers dir disk).log.elems.length
    rw [hlast, hes]
    exact Nat.succ_pos _

/-- What has been sent stays the data of the applied entries, in order. -/
theorem DeliveryInv.step (h : DeliveryInv p) (hguard : p.Sending ev p')
    (hst : p.next ev = some p') : DeliveryInv p' := by
  have hd : p.node.Delivering := ⟨h.sent, h.bound (Proc.alive_of_next hst hguard.1)⟩
  obtain ⟨hev, hguard⟩ := hguard
  rcases RaftNode.viewRule_delivering.next hd hst hev
    (by rintro c i args rfl; exact hguard)
    (by rintro c i args rfl hacc; exact RaftNode.KeepsApplied.observeTerm (hguard hacc))
    (fun r _ => RaftNode.appliesAll_true _ r) with hd' | ⟨hdead, r, hr, hend, hnode⟩
  · exact ⟨hd'.sent, fun _ => hd'.bound⟩
  · refine ⟨?_, fun halive => absurd (hdead.symm.trans halive) Bool.false_ne_true⟩
    -- there is no entry at the index of the panic, so nothing was due
    rw [hnode]
    show r.applyCh = some (dataEntries r.log.elems (r.lastApplied + 1))
    rw [dataEntries_succ, hend, Option.toList_none, List.filter_nil, List.append_nil]
    exact hr.sent

/-- **No gap.** Start a node on files that record no applied entry and let it
serve any events but a restart. As long as no snapshot is installed and no
applied entry is overwritten, every data entry up to `lastApplied` has been sent
on `applyCh`. -/
theorem applied_entries_sent {self : String} {peers : List String} {dir : String} {disk : Disk}
    (hlast : (newRaftNode self peers dir disk).lastApplied = 0) {q : Proc}
    (hrun : Run Proc.next Proc.Sending (Proc.boot self peers dir disk) q)
    {i : ℕ} {e : LogEntry} (hpos : 1 ≤ i) (hle : i ≤ q.node.lastApplied)
    (he : q.node.log.elems[i]? = some e) (hdata : e.type = .data) :
    ∃ sent, q.node.applyCh = some sent ∧ e ∈ sent := by
  have hinv : DeliveryInv q := by
    refine hrun.invariant (P := DeliveryInv) (deliveryInv_boot hlast) ?_
    intro p ev p' h hguard hst
    exact h.step hguard hst
  exact ⟨_, hinv.sent, mem_dataEntries hpos hle he hdata⟩

end runs

section traces

open scoped GrowthPolicy

/-- The snapshot of a leader in term 1 with two commands. -/
def twoCommandSnapshot : InstallSnapshotArgs where
  term := 1
  leaderId := "a"
  lastIncludedIndex := 2
  lastIncludedTerm := 1
  data := ⟨[sentinel, { term := 1, index := 1, topic := "t", data := [1] },
    { term := 1, index := 2, topic := "t", data := [2] }]⟩

/-- A new node installs the snapshot: `lastApplied` is 2, and nothing has been
sent. -/
theorem snapshot_skips_entry :
    ∃ q, Run Proc.next Proc.Unbroken (Proc.boot "b" ["a"] "data" {}) q ∧
      q.node.lastApplied = 2 ∧
      q.node.log.elems[2]? = some { term := 1, index := 1, topic := "t", data := [1] } ∧
      q.node.applyCh = some [] :=
  exists_run_of_execWith [.installSnapshot "a" 0 twoCommandSnapshot] (by decide +kernel)

/-- The whole snapshot reaches its last index. -/
theorem bad_snapshot_iff_whole :
    ((newRaftNode "b" ["a"] "data" {}).installSnapshot twoCommandSnapshot).1.commitIndex <
      ((newRaftNode "b" ["a"] "data" {}).installSnapshot twoCommandSnapshot).1.log.len :=
  ((bad_snapshot_iff (newRaftNode "b" ["a"] "data" {}) twoCommandSnapshot).2
    (by decide +kernel)).mpr (Or.inr (by decide))

/-- The same snapshot without any data: a new node reports success, has only the sentinel left
and takes index 2 for committed. -/
theorem bad_snapshot_installed :
    (newRaftNode "b" ["a"] "data" {}).Installs { twoCommandSnapshot with data := ⟨[]⟩ } ∧
      ((newRaftNode "b" ["a"] "data" {}).installSnapshot
        { twoCommandSnapshot with data := ⟨[]⟩ }).2.success = true ∧
      ((newRaftNode "b" ["a"] "data" {}).installSnapshot
        { twoCommandSnapshot with data := ⟨[]⟩ }).1.log.elems = [sentinel] ∧
      ((newRaftNode "b" ["a"] "data" {}).installSnapshot
        { twoCommandSnapshot with data := ⟨[]⟩ }).1.commitIndex = 2 := by
  decide +kernel

/-- Two commands through `AppendEntries` are both sent. -/
theorem applied_entries_sent_two :
    ∃ q, Run Proc.next Proc.Sending (Proc.boot "b" ["a"] "data" {}) q ∧
      q.node.lastApplied = 2 ∧
      ∃ sent, q.node.applyCh = some sent ∧ ({ term := 1, index := 2 } : LogEntry) ∈ sent := by
  obtain ⟨q, hrun, hlast, he⟩ : ∃ q, Run Proc.next Proc.Sending (Proc.boot "b" ["a"] "data" {}) q ∧
      q.node.lastApplied = 2 ∧ q.node.log.elems[2]? = some { term := 1, index := 2 } :=
    exists_run_of_execWith
      [.appendEntries "a" 0
        { term := 1, leaderId := "a", prevLogIndex := 0, prevLogTerm := 0
          entries := [{ term := 1, index := 1 }, { term := 1, index := 2 }], leaderCommit := 2 }]
      (by decide +kernel)
  exact ⟨q, hrun, hlast, applied_entries_sent (by decide +kernel) hrun (by decide) hlast.ge he rfl⟩

end traces

end DistributedMQ.Raft
