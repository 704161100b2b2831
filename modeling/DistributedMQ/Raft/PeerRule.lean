import DistributedMQ.Raft.Frame

/-!
# The log and the peer maps of a node

Most operations of a node leave its log and what it keeps about its peers alone. The others are put
together from a few moves: append an entry, take in a learner, drop a peer.

- `PeerRule F`: the relation `F` between a node and what becomes of it can be composed and holds for
  each of the moves. Then it holds for the operations.
-/

namespace DistributedMQ.Raft

open RaftNode

/-- A relation that holds for each move. -/
structure PeerRule (F : RaftNode → RaftNode → Prop) : Prop where
  frame : ∀ {r r' : RaftNode}, r'.log = r.log → r'.peers = r.peers →
    r'.nextIndex = r.nextIndex → r'.matchIndex = r.matchIndex → F r r'
  trans : ∀ {r r' r'' : RaftNode}, F r r' → F r' r'' → F r r''
  append : ∀ [GrowthPolicy] (r : RaftNode) (entry : LogEntry),
    F r { r with log := r.log.append entry }
  addLearner : ∀ (r : RaftNode) (addr : String), F r (r.addLearner addr)
  dropPeer : ∀ (r : RaftNode) (addr : String), F r (r.dropPeer addr)

namespace PeerRule

variable {F : RaftNode → RaftNode → Prop} (rule : PeerRule F)

include rule

theorem refl (r : RaftNode) : F r r := rule.frame rfl rfl rfl rfl

theorem foldl {f : RaftNode → String → RaftNode} (hf : ∀ r a, F r (f r a)) (addrs : List String) :
    ∀ r, F r (addrs.foldl f r) := by
  induction addrs with
  | nil => exact fun r => rule.refl r
  | cons a addrs ih => exact fun r => rule.trans (hf r a) (ih (f r a))

theorem applyEntry (r : RaftNode) (entry : LogEntry) : F r (r.applyEntry entry) := by
  unfold RaftNode.applyEntry
  split
  · unfold applyConfigChangeLocked
    split
    · refine rule.trans ?_ (rule.foldl rule.addLearner _ _)
      exact rule.frame rfl rfl rfl rfl
    · refine rule.trans ?_ (rule.foldl rule.dropPeer _ _)
      exact rule.frame rfl rfl rfl rfl
    · exact rule.refl r
  · exact rule.frame rfl rfl rfl rfl

theorem applyLoop : ∀ (k : ℕ) (r : RaftNode), F r (applyLoop k r).1 := by
  intro k
  induction k with
  | zero => exact fun r => rule.refl r
  | succ k ih =>
    intro r
    unfold RaftNode.applyLoop
    split
    · exact rule.frame rfl rfl rfl rfl
    · refine rule.trans ?_ (rule.trans
        (rule.applyEntry { r with lastApplied := r.lastApplied + 1 } _) (ih _))
      exact rule.frame rfl rfl rfl rfl

theorem saveState (r : RaftNode) : F r r.saveState :=
  rule.frame r.saveState_log r.saveState_peers r.saveState_nextIndex r.saveState_matchIndex

theorem becomeFollower (r : RaftNode) (term : ℕ) : F r (r.becomeFollower term) := by
  refine rule.trans ?_ (rule.saveState _)
  exact rule.frame rfl rfl rfl rfl

theorem observeTerm (r : RaftNode) (term : ℕ) : F r (r.observeTerm term) := by
  unfold RaftNode.observeTerm
  split
  · exact rule.becomeFollower r term
  · exact rule.refl r

theorem requestVote (r : RaftNode) (args : RequestVoteArgs) : F r (r.requestVote args).1 := by
  unfold RaftNode.requestVote
  dsimp only
  split
  · exact rule.refl r
  split
  · refine rule.trans (rule.observeTerm r args.term) (rule.trans ?_ (rule.saveState _))
    exact rule.frame rfl rfl rfl rfl
  · exact rule.observeTerm r args.term

theorem checkISR (r : RaftNode) : F r r.checkISR := by
  unfold RaftNode.checkISR
  split
  · exact rule.frame rfl rfl rfl rfl
  · exact rule.refl r

variable [GrowthPolicy]

/-- `AppendEntries` once the entries are merged. -/
theorem acceptEntries (r : RaftNode) (args : AppendEntriesArgs) :
    F { r with log := r.log.splice LogEntry.term (args.prevLogIndex + 1) args.entries }
      (r.acceptEntries args) := by
  unfold RaftNode.acceptEntries
  dsimp only
  refine rule.trans ?_ (rule.saveState _)
  split
  · refine rule.trans ?_ (rule.applyLoop _ _)
    exact rule.frame rfl rfl rfl rfl
  · exact rule.refl _

theorem appendOwn (r : RaftNode) (entry : LogEntry) : F r (r.appendOwn entry) :=
  rule.trans (rule.append r entry) (rule.saveState _)

theorem submitCommand (r : RaftNode) (topic : String) (partition : ℤ) (data : List UInt8) :
    F r (r.submitCommand topic partition data).1 := by
  unfold RaftNode.submitCommand
  dsimp only
  split
  · refine rule.trans (rule.appendOwn r (r.commandEntry topic partition data)) ?_
    split
    · refine rule.trans (rule.trans ?_ (rule.applyLoop _ _)) (rule.frame rfl rfl rfl rfl)
      exact rule.frame rfl rfl rfl rfl
    · exact rule.frame rfl rfl rfl rfl
  · exact rule.refl r

theorem changeConfig (r : RaftNode) (addr : String) (add : Bool) :
    F r (r.changeConfig addr add) := by
  refine rule.trans ?_ (rule.appendOwn _ _)
  exact rule.frame rfl rfl rfl rfl

theorem appendStableConfig (r : RaftNode) : F r r.appendStableConfig := by
  unfold RaftNode.appendStableConfig
  split
  · exact rule.refl r
  · exact rule.appendOwn r _

end PeerRule

end DistributedMQ.Raft
