import DistributedMQ.Raft.Deliveries
import DistributedMQ.Raft.ElectionSafety
import DistributedMQ.Raft.RunLoop

/-!
# A candidate and the leader of its term (`raft.go` lines 131–161, 183–273 and 938–980)

A node that accepts an `AppendEntries` of its own term has found the leader of that term and
should follow it. The handler resets the election timer, but it calls `becomeFollower` only for a
*newer* term: a candidate stays a candidate, and the goroutine that waits for all vote replies
starts the next election without any timer. Neither does the reset take back a value that `run` has
already received.

- `LoopState.campaigns`: the step calls `startElection`.
- `LoopState.Yields`: where a node accepts an `AppendEntries` of its term it is a follower, and `run`
  has not received from an election timer what it has still to handle.
- `candidate_yields`: in a run of such steps a node that has accepted an `AppendEntries` of term
  `T` is a follower as long as it is in `T`, and before it calls `startElection` again an election
  timer has fired that was created after the request.
- `candidate_does_not_yield`: a candidate accepts a request of its term, stays a candidate and
  campaigns again.

A run is one of a process from `NewRaftNode` on; a restarted process begins with new timers.
-/

namespace DistributedMQ.Raft

open Machine

section standing

variable [GrowthPolicy]

/-- **State and term.** A step that does not restart the process keeps both, or steps down into a
newer term, or is an election step: it calls `startElection`, or a candidate wins. -/
theorem Proc.next_standing {p p' : Proc} {ev : Event} (h : p.next ev = some p')
    (hev : ¬ ev.Restarts) :
    (p'.node.state = p.node.state ∧ p'.node.currentTerm = p.node.currentTerm) ∨
      (p'.node.state = .follower ∧ p.node.currentTerm < p'.node.currentTerm) ∨
      (ev.campaigns p = true ∧ p'.node.currentTerm = inc64 p.node.currentTerm) ∨
      (p.node.state = .candidate ∧ p'.node.currentTerm = p.node.currentTerm) := by
  obtain ⟨⟨q, out⟩, hstep, rfl⟩ := Option.map_eq_some_iff.mp h
  have hmove : ∀ {r r' : RaftNode}, RaftNode.VoteMove r r' →
      (r'.state = r.state ∧ r'.currentTerm = r.currentTerm) ∨
        (r'.state = .follower ∧ r.currentTerm < r'.currentTerm) := by
    intro r r' hm
    cases hm with
    | stay hstate hterm => exact Or.inl ⟨hstate, hterm⟩
    | down hstate hterm => exact Or.inr ⟨hstate, hterm⟩
  cases step_electionEffect hstep with
  | calm hnode =>
    rcases hmove hnode.move with hstay | hdown
    · exact Or.inl hstay
    · exact Or.inr (Or.inl hdown)
  | campaign es hsub hlead hcamp =>
    refine Or.inr (Or.inr (Or.inl ⟨hcamp, ?_⟩))
    rcases hstart : ({ p with elections := es } : Proc).startElection with ⟨p', out⟩
    show p'.node.currentTerm = _
    rw [(Proc.startElection_spec hstart).1]
    exact (p.node.startElection_spec p.nextId).1
  | ballot caller id args =>
    rcases p.node.requestVote_cases args with ⟨-, hcalm⟩ | ⟨-, hgrant⟩
    · rcases hmove hcalm.move with hstay | hdown
      · exact Or.inl hstay
      · exact Or.inr (Or.inl hdown)
    · rcases hgrant.state with ⟨hstate, hterm⟩ | ⟨hstate, hterm⟩
      · exact Or.inl ⟨hstate, hgrant.term.trans hterm.symm⟩
      · exact Or.inr (Or.inl ⟨hstate, hgrant.term ▸ hterm⟩)
  | tally e peer reply =>
    rcases p.node.handleVoteReply_cases e peer reply with ⟨hcalm, -⟩ | ⟨hcounts, -, hsame | hwon⟩
    · rcases hmove hcalm.move with hstay | hdown
      · exact Or.inl hstay
      · exact Or.inr (Or.inl hdown)
    · refine Or.inl ?_
      show (p.node.handleVoteReply e peer reply).1.state = _ ∧ _
      rw [Proc.onVoteReply, hsame]
      exact ⟨rfl, rfl⟩
    · refine Or.inr (Or.inr (Or.inr ⟨hcounts.state, ?_⟩))
      show (p.node.handleVoteReply e peer reply).1.currentTerm = _
      rw [hwon.1]
      simp [RaftNode.becomeLeader, RaftNode.closePending]
  | reboot r hnode hres => exact absurd hres hev

/-- A node that accepts an `AppendEntries` is in the term of the request: it has stepped down into
it, or was there before and is what it was. -/
theorem appendEntries_standing {r : RaftNode} {args : AppendEntriesArgs}
    (hsucc : (r.appendEntries args).2.success = true) :
    r.currentTerm ≤ args.term ∧ (r.appendEntries args).1.currentTerm = args.term ∧
      ((r.appendEntries args).1.state = .follower ∨
        (r.appendEntries args).1.state = r.state ∧ args.term = r.currentTerm) := by
  have haccepts : r.Accepts args := by
    by_contra hno
    rw [(RaftNode.appendEntries_refuse hno).2] at hsucc
    cases hsucc
  have hterm := (RaftNode.appendEntries_term haccepts.1).2
  refine ⟨haccepts.1, hterm, ?_⟩
  cases (RaftNode.calm_appendEntries r args).move with
  | stay hstate hsame => exact Or.inr ⟨hstate, hterm.symm.trans hsame⟩
  | down hstate => exact Or.inl hstate

end standing

namespace LoopState

/-- The timer has fired and its value has been received. -/
def Rung (s : LoopState) (timer : ℕ) : Prop := s.timers[timer]? = some .drained

/-- The step calls `startElection`: `run` handles a value of the election timer, or the goroutine
that has waited for the vote replies starts over. -/
def campaigns (s : LoopState) : LoopEvent → Bool
  | .handle => decide (s.pos = .tookElection ∧ s.proc.node.state ≠ .leader)
  | .other ev => ev.campaigns s.proc
  | _ => false

end LoopState

/-- The `AppendEntries` request that is served. -/
def LoopEvent.appendArgs : LoopEvent → Option AppendEntriesArgs
  | .other (.appendEntries _ _ args) => some args
  | _ => none

namespace LoopState

/-- A node that accepts an `AppendEntries` of its own term is a follower already, and no `run` has
just taken the value of an election timer when one is accepted. Terms do not overflow. -/
def Yields [GrowthPolicy] (s : LoopState) (l : LoopEvent) (_ : LoopState) : Prop :=
  (∀ args ∈ l.appendArgs, (s.proc.node.appendEntries args).2.success = true →
    (args.term = s.proc.node.currentTerm → s.proc.node.state = .follower) ∧
      s.pos ≠ .tookElection) ∧
  (s.campaigns l = true → s.proc.node.currentTerm + 1 < size64)

instance [GrowthPolicy] (s : LoopState) (l : LoopEvent) (s' : LoopState) :
    Decidable (s.Yields l s') := inferInstanceAs (Decidable (_ ∧ _))

/-! ## Timers -/

variable {s s' : LoopState} {l : LoopEvent}

@[simp] theorem resetTimers_proc (s : LoopState) (election heartbeat : Bool) :
    (s.resetTimers election heartbeat).proc = s.proc := by
  cases election <;> cases heartbeat <;> rfl

theorem length_resetElectionTimer (s : LoopState) :
    s.resetElectionTimer.timers.length = s.timers.length + 1 := by
  simp [resetElectionTimer]

theorem length_resetHeartbeatTimer (s : LoopState) :
    s.resetHeartbeatTimer.timers.length = s.timers.length + 1 := by
  simp [resetHeartbeatTimer]

theorem length_le_resetTimers (s : LoopState) (election heartbeat : Bool) :
    s.timers.length ≤ (s.resetTimers election heartbeat).timers.length := by
  cases election <;> cases heartbeat
  · exact le_rfl
  · exact (Nat.le_succ _).trans (length_resetHeartbeatTimer s).ge
  · exact (Nat.le_succ _).trans (length_resetElectionTimer s).ge
  · show s.timers.length ≤ s.resetElectionTimer.resetHeartbeatTimer.timers.length
    rw [length_resetHeartbeatTimer, length_resetElectionTimer]
    omega

/-- The election timer is the old one or a new one. -/
theorem election_resetTimers (s : LoopState) (election heartbeat : Bool) :
    (s.resetTimers election heartbeat).election = s.election ∨
      (s.resetTimers election heartbeat).election = s.timers.length := by
  cases election <;> cases heartbeat
  · exact Or.inl rfl
  · exact Or.inl rfl
  · exact Or.inr rfl
  · exact Or.inr rfl

theorem Rung.resetTimers {timer : ℕ} (h : s.Rung timer) (election heartbeat : Bool) :
    (s.resetTimers election heartbeat).Rung timer := getElem?_resetTimers h rfl _ _

theorem Rung.set {timer other : ℕ} {live status : TimerStatus} (h : s.Rung timer)
    (hlive : s.timers[other]? = some live) (hne : live ≠ .drained) :
    (s.timers.set other status)[timer]? = some .drained := by
  rw [List.getElem?_set_ne]
  · exact h
  · rintro rfl
    exact hne (Option.some.inj (hlive.symm.trans h))

variable [GrowthPolicy]

/-- A timer whose value has been received stays so. -/
theorem step_rung {timer : ℕ} (hrung : s.Rung timer) (h : s.step l = some s') :
    s'.Rung timer := by
  cases step_move h with
  | other ev p hp => exact Rung.resetTimers (s := { s with proc := p }) hrung _ _
  | fire t ht => exact hrung.set ht nofun
  | enter => exact hrung
  | receiveElection e hb _ he => exact hrung.set he nofun
  | receiveHeartbeat e hb _ hhb => exact hrung.set hhb nofun
  | handle _ p => exact Rung.resetTimers (s := { s with proc := p, pos := .top }) hrung _ _
  | stop => exact hrung

theorem step_length_le (h : s.step l = some s') : s.timers.length ≤ s'.timers.length := by
  cases step_move h with
  | other ev p hp => exact length_le_resetTimers { s with proc := p } _ _
  | fire t ht => exact (List.length_set ..).ge
  | enter => exact le_rfl
  | receiveElection e hb _ he => exact (List.length_set ..).ge
  | receiveHeartbeat e hb _ hhb => exact (List.length_set ..).ge
  | handle _ p => exact length_le_resetTimers { s with proc := p, pos := .top } _ _
  | stop => exact le_rfl

theorem step_election (h : s.step l = some s') :
    s'.election = s.election ∨ s'.election = s.timers.length := by
  cases step_move h with
  | other ev p hp => exact election_resetTimers { s with proc := p } _ _
  | handle _ p => exact election_resetTimers { s with proc := p, pos := .top } _ _
  | _ => exact Or.inl rfl

/-! ## The timer `run` waits on -/

/-- The timer `run` waits on is dead, unless it is the current one. -/
structure WaitsKnown (s : LoopState) : Prop where
  election : s.election < s.timers.length
  waits : ∀ e hb, s.pos = .blocked e hb → e = s.election ∨ s.DeadTimer e

omit [GrowthPolicy] in
/-- A reset leaves a dead timer behind: it stops one that runs, and drops a value that has not been
received. -/
theorem deadTimer_resetElectionTimer (h : s.election < s.timers.length) :
    s.resetElectionTimer.DeadTimer s.election := by
  refine ⟨(s.timers[s.election]).stop, ?_, TimerStatus.dead_stop _⟩
  show (s.timers.modify s.election TimerStatus.stop ++ [.running])[s.election]? = _
  rw [List.getElem?_append_left (by rw [List.length_modify]; exact h), List.getElem?_modify]
  simp [h]

omit [GrowthPolicy] in
/-- So after a reset `run` is blocked on a dead timer, if it is blocked. -/
theorem WaitsKnown.deadTimer {e hb : ℕ} (h : s.WaitsKnown) (hpos : s.pos = .blocked e hb) :
    s.resetElectionTimer.DeadTimer e := by
  rcases h.waits e hb hpos with rfl | hdead
  · exact deadTimer_resetElectionTimer h.election
  · exact hdead.resetTimers true false

omit [GrowthPolicy] in
theorem WaitsKnown.resetElectionTimer (h : s.WaitsKnown) : s.resetElectionTimer.WaitsKnown where
  election := Nat.lt_of_succ_le (length_resetElectionTimer s).ge
  waits _ _ hpos := Or.inr (h.deadTimer hpos)

omit [GrowthPolicy] in
theorem WaitsKnown.resetHeartbeatTimer (h : s.WaitsKnown) :
    s.resetHeartbeatTimer.WaitsKnown where
  election := h.election.trans_le ((Nat.le_succ _).trans (length_resetHeartbeatTimer s).ge)
  waits e hb hpos := (h.waits e hb hpos).imp id fun hdead => hdead.resetTimers false true

omit [GrowthPolicy] in
theorem WaitsKnown.resetTimers (h : s.WaitsKnown) (election heartbeat : Bool) :
    (s.resetTimers election heartbeat).WaitsKnown := by
  cases election <;> cases heartbeat
  · exact h
  · exact h.resetHeartbeatTimer
  · exact h.resetElectionTimer
  · exact h.resetElectionTimer.resetHeartbeatTimer

/-- `run` takes up the current timer when it enters its `select`, and what another goroutine stops
under it is dead. -/
theorem WaitsKnown.step (hknown : s.WaitsKnown) (h : s.step l = some s') : s'.WaitsKnown := by
  have hmove := step_move h
  cases hmove with
  | other ev p hp =>
    exact WaitsKnown.resetTimers (s := { s with proc := p }) ⟨hknown.election, hknown.waits⟩ _ _
  | fire t ht =>
    refine ⟨by rw [List.length_set]; exact hknown.election, fun e hb hpos => ?_⟩
    exact (hknown.waits e hb hpos).imp id fun hdead => step_deadTimer hdead h
  | enter htop =>
    refine ⟨hknown.election, fun e hb hpos => ?_⟩
    cases hpos
    exact Or.inl rfl
  | receiveElection =>
    refine ⟨by rw [List.length_set]; exact hknown.election, fun e hb hpos => ?_⟩
    cases hpos
  | receiveHeartbeat =>
    refine ⟨by rw [List.length_set]; exact hknown.election, fun e hb hpos => ?_⟩
    cases hpos
  | handle _ p =>
    refine WaitsKnown.resetTimers (s := { s with proc := p, pos := .top })
      ⟨hknown.election, fun e hb hpos => ?_⟩ _ _
    cases hpos
  | stop =>
    refine ⟨hknown.election, fun e hb hpos => ?_⟩
    cases hpos

/-- In every run of the process `run` waits on the current timer or on a dead one. -/
theorem waitsKnown_of_run {guard : LoopState → LoopEvent → LoopState → Prop} {p : Proc}
    (hrun : Run LoopState.step guard (start p) s) : s.WaitsKnown := by
  refine hrun.invariant (P := WaitsKnown) ⟨Nat.zero_lt_two, fun e hb hpos => ?_⟩ ?_
  · cases hpos
  · intro t l u h _ hst
    exact h.step hst

/-! ## What the loop does to the node -/

theorem step_other_inv {ev : Event} (h : s.step (.other ev) = some s') :
    ev.elsewhere = true ∧ ∃ p, s.proc.next ev = some p ∧
      s' = { s with proc := p : LoopState }.resetTimers (s.proc.resetsElection ev)
        (s.proc.resetsHeartbeat ev p) := by
  simp only [step] at h
  split at h
  · rename_i p helse hp
    exact ⟨helse, p, hp, (Option.some.inj h).symm⟩
  · cases h

omit [GrowthPolicy] in
theorem not_restarts_of_elsewhere {ev : Event} (h : ev.elsewhere = true) : ¬ ev.Restarts := by
  intro hres
  cases ev with
  | restart => cases h
  | dieServing request => cases h
  | _ => exact hres

/-- **State and term**, for a step of the loop. -/
theorem step_standing (h : s.step l = some s') :
    (s'.proc.node.state = s.proc.node.state ∧
        s'.proc.node.currentTerm = s.proc.node.currentTerm) ∨
      (s'.proc.node.state = .follower ∧ s.proc.node.currentTerm < s'.proc.node.currentTerm) ∨
      (s.campaigns l = true ∧ s'.proc.node.currentTerm = inc64 s.proc.node.currentTerm) ∨
      (s.proc.node.state = .candidate ∧
        s'.proc.node.currentTerm = s.proc.node.currentTerm) := by
  cases l with
  | other ev =>
    obtain ⟨helse, p, hp, rfl⟩ := step_other_inv h
    rw [resetTimers_proc]
    exact Proc.next_standing hp (not_restarts_of_elsewhere helse)
  | handle =>
    simp only [step, handle] at h
    split at h
    · rename_i hpos
      split at h
      · rename_i p hp
        cases h
        rw [resetTimers_proc]
        rcases Proc.next_standing hp (fun hres => hres) with hst | hst | ⟨hcamp, hterm⟩ | hst
        · exact Or.inl hst
        · exact Or.inr (Or.inl hst)
        · refine Or.inr (Or.inr (Or.inl ⟨decide_eq_true ⟨hpos, ?_⟩, hterm⟩))
          exact of_decide_eq_true hcamp
        · exact Or.inr (Or.inr (Or.inr hst))
      · cases h
    · cases h
      rw [resetTimers_proc]
      exact Or.inl ⟨rfl, rfl⟩
    · cases h
  | _ =>
    cases step_move h
    exact Or.inl ⟨rfl, rfl⟩

/-! ## After the request -/

/-- A value of an election timer created at `N` or later has been received; `hist` are the states
since. -/
def RungSince (N : ℕ) (hist : List LoopState) (t : LoopState) : Prop :=
  ∃ u ∈ hist, N ≤ u.election ∧ t.Rung u.election

/-- What holds in all states since an `AppendEntries` of term `T` was accepted, at a time when `N`
timers had been created: until one of the later timers has fired, the node is a follower. -/
structure Yielded (N T : ℕ) (hist : List LoopState) (t : LoopState) : Prop where
  mem : t ∈ hist
  timers : N ≤ t.timers.length
  election : N ≤ t.election
  term : T ≤ t.proc.node.currentTerm
  follows : t.proc.node.currentTerm = T → t.proc.node.state = .follower
  idle : t.proc.node.state ≠ .follower → RungSince N hist t
  took : t.pos = .tookElection → RungSince N hist t
  waits : ∀ e hb, t.pos = .blocked e hb →
    (∃ u ∈ hist, N ≤ u.election ∧ u.election = e) ∨ t.DeadTimer e

variable {N T : ℕ} {hist : List LoopState}

theorem RungSince.step (hrung : RungSince N hist s) (h : s.step l = some s') :
    RungSince N (s' :: hist) s' := by
  obtain ⟨u, hu, hN, hr⟩ := hrung
  exact ⟨u, List.mem_cons_of_mem _ hu, hN, step_rung hr h⟩

/-- Whoever campaigns has heard a timer that is newer than the request. -/
theorem Yielded.rungSince (hy : Yielded N T hist s) (h : s.step l = some s')
    (hcamp : s.campaigns l = true) : RungSince N hist s := by
  cases l with
  | handle => exact hy.took (of_decide_eq_true hcamp).1
  | other ev =>
    obtain ⟨helse, -⟩ := step_other_inv h
    cases ev with
    | electionTimeout => cases helse
    | electionOver id =>
      have hcand := of_decide_eq_true (Bool.and_eq_true_iff.mp hcamp).1
      refine hy.idle ?_
      rw [hcand]
      decide
    | _ => cases hcamp
  | _ => cases hcamp

/-- The node can leave `T` only for a newer term, and can campaign only on a timer created since. -/
theorem Yielded.step (hy : Yielded N T hist s)
    (hwrap : s.campaigns l = true → s.proc.node.currentTerm + 1 < size64)
    (h : s.step l = some s') : Yielded N T (s' :: hist) s' := by
  have hinc : s.campaigns l = true → inc64 s.proc.node.currentTerm = s.proc.node.currentTerm + 1 :=
    fun hcamp => Nat.mod_eq_of_lt (hwrap hcamp)
  refine ⟨List.mem_cons_self, hy.timers.trans (step_length_le h), ?_, ?_, ?_, ?_, ?_, ?_⟩
  -- a new timer is numbered behind all others
  · rcases step_election h with heq | heq
    · exact heq ▸ hy.election
    · exact heq ▸ hy.timers
  · -- terms do not decrease
    have hT := hy.term
    rcases step_standing h with ⟨-, hterm⟩ | ⟨-, hterm⟩ | ⟨hcamp, hterm⟩ | ⟨-, hterm⟩
    · omega
    · omega
    · rw [hterm, hinc hcamp]
      omega
    · omega
  -- in term `T` the node follows
  · intro hsame
    have hT := hy.term
    rcases step_standing h with ⟨hstate, hterm⟩ | ⟨hstate, -⟩ | ⟨hcamp, hterm⟩ | ⟨hcand, hterm⟩
    · rw [hstate]
      exact hy.follows (hterm.symm.trans hsame)
    · exact hstate
    · rw [hterm, hinc hcamp] at hsame
      omega
    · -- a candidate has left the term before
      have hfollows := hy.follows (hterm.symm.trans hsame)
      rw [hcand] at hfollows
      cases hfollows
  -- a node that does not follow has heard one of the timers
  · intro hne
    rcases step_standing h with ⟨hstate, -⟩ | ⟨hstate, -⟩ | ⟨hcamp, -⟩ | ⟨hcand, -⟩
    · exact (hy.idle (hstate ▸ hne)).step h
    · exact absurd hstate hne
    · exact (hy.rungSince h hcamp).step h
    · refine (hy.idle ?_).step h
      rw [hcand]
      decide
  -- and so has a loop that goes on to an election
  · intro hpos
    cases step_move h with
    | other ev p hp =>
      rw [resetTimers_pos] at hpos
      exact (hy.took hpos).step h
    | fire t ht => exact (hy.took hpos).step h
    | enter => cases hpos
    | receiveElection e hb hblocked he =>
      rcases hy.waits e hb hblocked with ⟨u, hu, hN, rfl⟩ | hdead
      · exact ⟨u, List.mem_cons_of_mem _ hu, hN,
          List.getElem?_set_self (List.getElem?_eq_some_iff.mp he).1⟩
      · exact absurd he hdead.not_fired
    | receiveHeartbeat => cases hpos
    | handle =>
      rw [resetTimers_pos] at hpos
      cases hpos
    | stop => cases hpos
  -- what `run` waits for is one of them, or dead
  · intro e hb hpos
    have hold : s.pos = .blocked e hb →
        (∃ u ∈ s' :: hist, N ≤ u.election ∧ u.election = e) ∨ s'.DeadTimer e := by
      intro hpos
      rcases hy.waits e hb hpos with ⟨u, hu, hN, heq⟩ | hdead
      · exact Or.inl ⟨u, List.mem_cons_of_mem _ hu, hN, heq⟩
      · exact Or.inr (step_deadTimer hdead h)
    cases step_move h with
    | other ev p hp =>
      rw [resetTimers_pos] at hpos
      exact hold hpos
    | fire t ht => exact hold hpos
    | enter htop =>
      cases hpos
      exact Or.inl ⟨s, List.mem_cons_of_mem _ hy.mem, hy.election, rfl⟩
    | receiveElection => cases hpos
    | receiveHeartbeat => cases hpos
    | handle =>
      rw [resetTimers_pos] at hpos
      cases hpos
    | stop => cases hpos

/-- The request itself: the node follows, and the timer `run` may be blocked on is dead. -/
theorem yielded_accept {caller : String} {id : ℕ} {args : AppendEntriesArgs}
    (hknown : s.WaitsKnown) (hyields : s.Yields (.other (.appendEntries caller id args)) s')
    (h : s.step (.other (.appendEntries caller id args)) = some s')
    (hsucc : (s.proc.node.appendEntries args).2.success = true) :
    Yielded s.timers.length args.term [s'] s' := by
  obtain ⟨hfollows, htook⟩ := hyields.1 args rfl hsucc
  obtain ⟨hle, hterm, hstate⟩ := appendEntries_standing hsucc
  obtain ⟨-, p, hp, rfl⟩ := step_other_inv h
  obtain ⟨out, hcase⟩ := Proc.next_cases hp
  cases hcase
  have hreset : s.proc.resetsElection (.appendEntries caller id args) = true := decide_eq_true hle
  rw [hreset]
  have hfollower : (s.proc.node.appendEntries args).1.state = .follower := by
    rcases hstate with hdown | ⟨hsame, heq⟩
    · exact hdown
    · rw [hsame]
      exact hfollows heq
  refine ⟨List.mem_singleton_self _, ?_, le_rfl, hterm.ge, fun _ => hfollower,
    fun hne => absurd hfollower hne, fun hpos => absurd hpos htook, fun e hb hpos => ?_⟩
  · exact length_le_resetTimers { s with proc := _ } true false
  · exact Or.inr (WaitsKnown.deadTimer (s := { s with proc := _ })
      ⟨hknown.election, hknown.waits⟩ hpos)

end LoopState

open LoopState

/-- **Yielding.** Let a node run such that wherever it accepts an `AppendEntries` of its own term
it is a follower, and wherever it accepts one `run` has not just received from an election timer.
When it has accepted an `AppendEntries` of term `T`, it is neither candidate nor leader while it is
in `T`; and whenever it is about to call `startElection`, the value of an election timer has been
received that was created after the request. -/
theorem candidate_yields [GrowthPolicy] {selfAddr : String} {peerList : List String}
    {dataDir : String} {disk : Disk} {s s₁ s₂ : LoopState} {caller : String} {id : ℕ}
    {args : AppendEntriesArgs} {hist : List LoopState}
    (hrun : Run step Yields (start (.boot selfAddr peerList dataDir disk)) s)
    (hyields : s.Yields (.other (.appendEntries caller id args)) s₁)
    (haccept : s.step (.other (.appendEntries caller id args)) = some s₁)
    (hsucc : (s.proc.node.appendEntries args).2.success = true)
    (htrail : Trail step Yields s₁ hist s₂) :
    (s₂.proc.node.currentTerm = args.term → s₂.proc.node.state = .follower) ∧
      ∀ l s₃, s₂.step l = some s₃ → s₂.campaigns l = true →
        ∃ u ∈ hist, s.timers.length ≤ u.election ∧ s₂.Rung u.election := by
  have hy : Yielded s.timers.length args.term hist s₂ := by
    refine htrail.invariant (P := Yielded s.timers.length args.term)
      (yielded_accept (waitsKnown_of_run hrun) hyields haccept hsucc) ?_
    intro hist t l u ht hg hst
    exact ht.step hg.2 hst
  exact ⟨hy.follows, fun l s₃ hst hcamp => hy.rungSince hst hcamp⟩

section traces

open scoped GrowthPolicy

/-- A follower accepts a heartbeat before `run` is back in its `select`. It campaigns when the
timer created for the heartbeat has fired. -/
theorem candidate_yields_heartbeat :
    ∃ s s₁ s₂ : LoopState, ∃ hist,
      Run step Yields (start (.boot "a" ["b", "c"] "data" {})) s ∧
      s.step (.other leaderHeartbeat) = some s₁ ∧ Trail step Yields s₁ hist s₂ ∧
      s₂.campaigns .handle = true ∧
      ∃ u ∈ hist, s.timers.length ≤ u.election ∧ s₂.Rung u.election := by
  obtain ⟨s, s₁, s₂, hrun, hyields, hst, hrun', hsucc, hcamp, hhandle⟩ :
      ∃ s s₁ s₂ : LoopState, Run step Yields (start (.boot "a" ["b", "c"] "data" {})) s ∧
        s.Yields (.other leaderHeartbeat) s₁ ∧ s.step (.other leaderHeartbeat) = some s₁ ∧
        Run step Yields s₁ s₂ ∧
        (s.proc.node.appendEntries
          { term := 1, leaderId := "b", prevLogIndex := 0, prevLogTerm := 0, entries := [],
            leaderCommit := 0 }).2.success = true ∧
        s₂.campaigns .handle = true ∧ (s₂.step .handle).isSome = true :=
    exists_step_of_execWith [LoopEvent.enter, .fire 1, .receiveHeartbeat]
      (LoopEvent.other leaderHeartbeat) [LoopEvent.handle, .enter, .fire 2, .receiveElection]
      (by decide +kernel)
  obtain ⟨hist, htrail⟩ := hrun'.exists_trail
  obtain ⟨s₃, hs₃⟩ := Option.isSome_iff_exists.mp hhandle
  exact ⟨s, s₁, s₂, hist, hrun, hst, htrail, hcamp,
    (candidate_yields hrun hyields hst hsucc htrail).2 .handle s₃ hs₃ hcamp⟩

/-- **A candidate that does not yield.** `a` campaigns in term 1 and accepts a heartbeat of the
leader of this term. It is still a candidate, and when the votes have been refused it campaigns
again, while the only timer created since is running. -/
theorem candidate_does_not_yield :
    ∃ s s₁ s₂ : LoopState,
      Run step (fun _ _ _ => True) (start (.boot "a" ["b", "c"] "data" {})) s ∧
      s.step (.other leaderHeartbeat) = some s₁ ∧
      Run step (fun _ _ _ => True) s₁ s₂ ∧
      s.proc.node.currentTerm = 1 ∧ s₁.proc.node.currentTerm = 1 ∧
      s₁.proc.node.state = .candidate ∧ s₂.campaigns (.other (.electionOver 0)) = true ∧
      (s₂.step (.other (.electionOver 0))).isSome = true ∧
      s₂.timers.drop s.timers.length = [.running] := by
  obtain ⟨s, s₁, s₂, hrun, -, hst, hrun', hP⟩ :
      ∃ s s₁ s₂ : LoopState,
        Run step (fun _ _ _ => True) (start (.boot "a" ["b", "c"] "data" {})) s ∧ True ∧
        s.step (.other leaderHeartbeat) = some s₁ ∧ Run step (fun _ _ _ => True) s₁ s₂ ∧
        s.proc.node.currentTerm = 1 ∧ s₁.proc.node.currentTerm = 1 ∧
        s₁.proc.node.state = .candidate ∧ s₂.campaigns (.other (.electionOver 0)) = true ∧
        (s₂.step (.other (.electionOver 0))).isSome = true ∧
        s₂.timers.drop s.timers.length = [.running] :=
    exists_step_of_execWith [LoopEvent.enter, .fire 0, .receiveElection, .handle]
      (LoopEvent.other leaderHeartbeat)
      [LoopEvent.other (.voteReply 0 "b" { term := 1, voteGranted := false }),
        .other (.voteReply 0 "c" { term := 1, voteGranted := false })] (by decide +kernel)
  exact ⟨s, s₁, s₂, hrun, hst, hrun', hP⟩

end traces

end DistributedMQ.Raft
