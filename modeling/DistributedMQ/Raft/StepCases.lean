import DistributedMQ.Raft.Process

/-!
# The cases of a step

`Proc.Case p ev p' out` has one constructor for every way through `Proc.step`,
with what the process finds on that way. `Proc.step_cases` is the inversion of a
step and `Proc.Case.step` its converse for a live process. Whatever is proved about
all steps goes through them.
-/

namespace DistributedMQ.Raft

variable [GrowthPolicy]

namespace Proc

/-- What a step of a process can be. -/
inductive Case (p : Proc) : Event → Proc → List Message → Prop where
  | leaderTimeout (hlead : p.node.state = .leader) : Case p .electionTimeout p []
  | electionTimeout (hlead : p.node.state ≠ .leader) :
      Case p .electionTimeout p.startElection.1 p.startElection.2
  /-- All replies are in and the candidate has moved on. -/
  | electionOver (id : ℕ) (e : Election) (hfind : p.elections.find? (fun e => e.id = id) = some e)
      (hdone : e.waiting = [])
      (hover : ¬(p.node.state = .candidate ∧ p.node.currentTerm = e.term)) :
      Case p (.electionOver id) { p with elections := p.elections.filter fun e' => e'.id ≠ id } []
  /-- All replies are in without a majority. -/
  | electionRetry (id : ℕ) (e : Election) (hfind : p.elections.find? (fun e => e.id = id) = some e)
      (hdone : e.waiting = []) (hcand : p.node.state = .candidate ∧ p.node.currentTerm = e.term) :
      Case p (.electionOver id)
        { p with elections := p.elections.filter fun e' => e'.id ≠ id }.startElection.1
        { p with elections := p.elections.filter fun e' => e'.id ≠ id }.startElection.2
  | requestVote (caller : String) (id : ℕ) (args : RequestVoteArgs) :
      Case p (.requestVote caller id args) { p with node := (p.node.requestVote args).1 }
        [.voteReply caller id p.node.selfAddr (p.node.requestVote args).2]
  | voteFailed (id : ℕ) (peer : String) :
      Case p (.voteFailed id peer) p
        [.voteReply p.node.selfAddr id peer { term := p.node.currentTerm, voteGranted := false }]
  | voteReply (id : ℕ) (peer : String) (reply : RequestVoteReply) (e : Election)
      (hfind : p.elections.find? (fun e => e.id = id) = some e) (hpeer : peer ∈ e.waiting) :
      Case p (.voteReply id peer reply) (p.onVoteReply e peer reply) []
  | sendAppendEntries (peer : String) (hpeer : peer ∈ p.node.peers.keys) :
      Case p (.sendAppendEntries peer) (p.onSendAppendEntries peer) []
  | marshal (id : ℕ) (c : AppendCall) (hfind : p.appends.find? (fun c => c.id = id) = some c)
      (hsent : c.sent = false) :
      Case p (.marshal id) { p with appends := markSent p.appends id }
        [.appendRequest p.node.selfAddr id c.peer (p.node.marshal c)]
  | appendEntries (caller : String) (id : ℕ) (args : AppendEntriesArgs) :
      Case p (.appendEntries caller id args) { p with node := (p.node.appendEntries args).1 }
        [.appendReply caller id (p.node.appendEntries args).2]
  | appendFailed (id : ℕ) :
      Case p (.appendFailed id) p
        [.appendReply p.node.selfAddr id { term := p.node.currentTerm, success := false }]
  | appendReply (id : ℕ) (reply : AppendEntriesReply) (c : AppendCall)
      (hfind : p.appends.find? (fun c => c.id = id) = some c) :
      Case p (.appendReply id reply)
        { p with
          node := p.node.handleAppendReply c reply
          appends := p.appends.filter fun c' => c'.id ≠ id } []
  | sendSnapshot (peer : String) (args : InstallSnapshotArgs) (hdue : peer ∈ p.snapshotsDue)
      (hargs : p.node.sendSnapshot = some args) :
      Case p (.sendSnapshot peer)
        ({ p with snapshotsDue := p.snapshotsDue.erase peer }.startSnapshot peer)
        [.snapshotRequest p.node.selfAddr p.nextId peer args]
  | noSnapshot (peer : String) (hdue : peer ∈ p.snapshotsDue) (hnone : p.node.sendSnapshot = none) :
      Case p (.sendSnapshot peer) { p with snapshotsDue := p.snapshotsDue.erase peer } []
  | installSnapshot (caller : String) (id : ℕ) (args : InstallSnapshotArgs) :
      Case p (.installSnapshot caller id args) { p with node := (p.node.installSnapshot args).1 }
        [.snapshotReply caller id (p.node.installSnapshot args).2]
  | snapshotFailed (id : ℕ) :
      Case p (.snapshotFailed id) p
        [.snapshotReply p.node.selfAddr id { term := p.node.currentTerm, success := false }]
  | snapshotReply (id : ℕ) (reply : InstallSnapshotReply) (c : SnapshotCall)
      (hfind : p.snapshots.find? (fun c => c.id = id) = some c) :
      Case p (.snapshotReply id reply)
        { p with
          node := p.node.handleSnapshotReply c reply
          snapshots := p.snapshots.filter fun c' => c'.id ≠ id } []
  | submitCommand (topic : String) (partition : ℤ) (data : List UInt8) :
      Case p (.submitCommand topic partition data)
        { p with node := (p.node.submitCommand topic partition data).1 } []
  | applyCommittedEntries :
      Case p .applyCommittedEntries
        { p with
          node := p.node.applyCommittedEntries.1
          alive := p.node.applyCommittedEntries.2 } []
  | checkISR : Case p .checkISR { p with node := p.node.checkISR } []
  | addNode (addr : String) (hok : ∃ u, p.node.addNode addr = .ok u) :
      Case p (.addNode addr) { p with changes := p.changes ++ [(addr, true)] } []
  | removeNode (addr : String) (hok : ∃ u, p.node.removeNode addr = .ok u) :
      Case p (.removeNode addr) { p with changes := p.changes ++ [(addr, false)] } []
  | changeConfig (addr : String) (add : Bool) (hmem : (addr, add) ∈ p.changes) :
      Case p (.changeConfig addr add)
        { p with
          node := p.node.changeConfig addr add
          changes := p.changes.erase (addr, add) } []
  | appendStableConfig : Case p .appendStableConfig { p with node := p.node.appendStableConfig } []
  | restart : Case p .restart p.restart []
  | dieServing (request : Message) (term : ℕ) (hterm : request.requestTerm = some term) :
      Case p (.dieServing request) { p with node := p.node.observeTerm term }.restart []

omit [GrowthPolicy] in
theorem eq_of_some_eq {α β : Type} {x : α × β} {a : α} {b : β} (h : some x = some (a, b)) :
    x.1 = a ∧ x.2 = b := by
  cases h
  exact ⟨rfl, rfl⟩

theorem stepAlive_cases {p p' : Proc} {ev : Event} {out : List Message}
    (h : p.stepAlive ev = some (p', out)) : Case p ev p' out := by
  -- a disabled event has no successor, and `h` is absurd
  cases ev with
  | electionTimeout =>
    rw [stepAlive] at h
    split at h
    · cases h
      exact .leaderTimeout ‹_›
    · obtain ⟨rfl, rfl⟩ := eq_of_some_eq h
      exact .electionTimeout ‹_›
  | electionOver id =>
    rw [stepAlive] at h
    split at h
    case h_2 => cases h
    case h_1 e hfind =>
    split at h
    case isFalse => cases h
    case isTrue hdone =>
    dsimp only at h
    split at h
    · obtain ⟨rfl, rfl⟩ := eq_of_some_eq h
      exact .electionRetry id e hfind hdone ‹_›
    · cases h
      exact .electionOver id e hfind hdone ‹_›
  | requestVote caller id args =>
    cases h
    exact .requestVote caller id args
  | voteFailed id peer =>
    cases h
    exact .voteFailed id peer
  | voteReply id peer reply =>
    rw [stepAlive] at h
    split at h
    case h_2 => cases h
    case h_1 e hfind =>
    split at h
    · cases h
      exact .voteReply id peer reply e hfind ‹_›
    · cases h
  | sendAppendEntries peer =>
    rw [stepAlive] at h
    split at h
    · cases h
      exact .sendAppendEntries peer ‹_›
    · cases h
  | marshal id =>
    rw [stepAlive] at h
    split at h
    case h_2 => cases h
    case h_1 c hfind =>
    split at h
    · cases h
    · cases h
      exact .marshal id c hfind (Bool.not_eq_true _ ▸ ‹¬c.sent = true›)
  | appendEntries caller id args =>
    cases h
    exact .appendEntries caller id args
  | appendFailed id =>
    cases h
    exact .appendFailed id
  | appendReply id reply =>
    rw [stepAlive] at h
    split at h
    case h_2 => cases h
    case h_1 c hfind =>
    cases h
    exact .appendReply id reply c hfind
  | sendSnapshot peer =>
    rw [stepAlive] at h
    split at h
    case isFalse => cases h
    case isTrue hdue =>
    dsimp only at h
    split at h
    · cases h
      exact .sendSnapshot peer _ hdue ‹_›
    · cases h
      exact .noSnapshot peer hdue ‹_›
  | installSnapshot caller id args =>
    cases h
    exact .installSnapshot caller id args
  | snapshotFailed id =>
    cases h
    exact .snapshotFailed id
  | snapshotReply id reply =>
    rw [stepAlive] at h
    split at h
    case h_2 => cases h
    case h_1 c hfind =>
    cases h
    exact .snapshotReply id reply c hfind
  | submitCommand topic partition data =>
    cases h
    exact .submitCommand topic partition data
  | applyCommittedEntries =>
    cases h
    exact .applyCommittedEntries
  | checkISR =>
    cases h
    exact .checkISR
  | addNode addr =>
    rw [stepAlive] at h
    split at h
    · cases h
      exact .addNode addr ⟨_, ‹_›⟩
    · cases h
  | removeNode addr =>
    rw [stepAlive] at h
    split at h
    · cases h
      exact .removeNode addr ⟨_, ‹_›⟩
    · cases h
  | changeConfig addr add =>
    rw [stepAlive] at h
    split at h
    · cases h
      exact .changeConfig addr add ‹_›
    · cases h
  | appendStableConfig =>
    cases h
    exact .appendStableConfig
  | restart =>
    cases h
    exact .restart
  | dieServing request =>
    rw [stepAlive] at h
    split at h
    · cases h
      exact .dieServing request _ ‹_›
    · cases h

/-- **Inversion of a step.** A dead process can only be restarted. -/
theorem step_cases {p p' : Proc} {ev : Event} {out : List Message}
    (h : p.step ev = some (p', out)) : Case p ev p' out := by
  unfold step at h
  split at h
  · exact stepAlive_cases h
  · split at h
    · cases h
      exact .restart
    · cases h

/-- Every case of a live process is a step. -/
theorem Case.step {p p' : Proc} {ev : Event} {out : List Message} (halive : p.alive = true)
    (h : Case p ev p' out) : p.step ev = some (p', out) := by
  unfold Proc.step
  rw [if_pos halive]
  cases h with
  | leaderTimeout hlead => exact if_pos hlead
  | electionTimeout hlead => exact if_neg hlead
  | electionOver id e hfind hdone hover =>
    rw [stepAlive, hfind]
    exact (if_pos hdone).trans (if_neg hover)
  | electionRetry id e hfind hdone hcand =>
    rw [stepAlive, hfind]
    exact (if_pos hdone).trans (if_pos hcand)
  | voteReply id peer reply e hfind hpeer =>
    rw [stepAlive, hfind]
    exact if_pos hpeer
  | sendAppendEntries peer hpeer => exact if_pos hpeer
  | marshal id c hfind hsent =>
    rw [stepAlive, hfind]
    exact if_neg (by rw [hsent]; decide)
  | appendReply id reply c hfind => rw [stepAlive, hfind]
  | sendSnapshot peer args hdue hargs =>
    rw [stepAlive, if_pos hdue]
    dsimp only
    rw [hargs]
  | noSnapshot peer hdue hnone =>
    rw [stepAlive, if_pos hdue]
    dsimp only
    rw [hnone]
  | snapshotReply id reply c hfind => rw [stepAlive, hfind]
  | addNode addr hok =>
    obtain ⟨u, hok⟩ := hok
    rw [stepAlive, hok]
  | removeNode addr hok =>
    obtain ⟨u, hok⟩ := hok
    rw [stepAlive, hok]
  | changeConfig addr add hmem => exact if_pos hmem
  | dieServing request term hterm => rw [stepAlive, hterm]
  | _ => rfl

end Proc

end DistributedMQ.Raft
