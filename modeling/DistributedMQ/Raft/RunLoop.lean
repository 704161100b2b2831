import DistributedMQ.Lib.Machine
import DistributedMQ.Raft.NodeOp

/-!
# The run loop and its timers (`raft.go` lines 131–168)

`run` blocks in a `select` on the channels of two timers. Go evaluates the
channel operands once, when the `select` is entered, while
`resetElectionTimer` stops the timer and puts a *new* one into
`r.electionTimer`. A handler that resets the timer while `run` is blocked leaves
`run` with the channel of a stopped timer.

- `LoopState`: a process with its timers and the position of `run`.
- `waits_on_current_timer`: as long as no other goroutine resets the election
  timer while `run` is blocked, `run` waits on the current one.
  `waits_on_stopped_timer` is a run in which it does not.
- `stays_blocked`: once both timers `run` waits on are dead, it stays blocked
  whatever happens, until the node is stopped. No timer makes the node campaign
  any more; only the goroutine of an election that is under way can still do so.

`Stop` is that of Go 1.23 and later (`go.mod` asks for 1.25): a value that the
timer has sent and nobody has received is dropped.
-/

namespace DistributedMQ.Raft

open Machine

/-- A `time.Timer`. -/
inductive TimerStatus where
  | running
  /-- It has fired; the value is in its channel. -/
  | fired
  /-- It has been stopped before its value was received. -/
  | stopped
  /-- Its value has been received. -/
  | drained
deriving DecidableEq, Repr

namespace TimerStatus

/-- `Timer.Stop`: nothing is received any more, not even a value that is in the channel already. -/
def stop : TimerStatus → TimerStatus
  | .running | .fired => .stopped
  | status => status

/-- Nothing will be received from its channel any more. -/
def Dead (status : TimerStatus) : Prop := status = .stopped ∨ status = .drained

theorem dead_stop (status : TimerStatus) : status.stop.Dead := by
  cases status <;> simp [stop, Dead]

theorem stop_of_dead {status : TimerStatus} (h : status.Dead) : status.stop = status := by
  rcases h with rfl | rfl <;> rfl

end TimerStatus

/-- Where `run` is. -/
inductive LoopPos where
  /-- At the head of the loop. -/
  | top
  /-- In the `select`, on the channels of these two timers. -/
  | blocked (election heartbeat : ℕ)
  /-- The election timer's value has been received. -/
  | tookElection
  /-- The heartbeat timer's value has been received. -/
  | tookHeartbeat
  | returned
deriving DecidableEq, Repr

structure LoopState where
  proc : Proc
  /-- The timers created so far; a timer is named by its place here. -/
  timers : List TimerStatus
  /-- `r.electionTimer`. -/
  election : ℕ
  /-- `r.heartbeatTimer`. -/
  heartbeat : ℕ
  pos : LoopPos

inductive LoopEvent where
  /-- A critical section of another goroutine. -/
  | other (ev : Event)
  /-- A running timer fires. -/
  | fire (timer : ℕ)
  /-- `run` enters the `select`. -/
  | enter
  | receiveElection
  | receiveHeartbeat
  /-- `run` handles what it has received, with the lock. -/
  | handle
  /-- `stopCh` is closed. -/
  | stop

/-- The event is neither `run`'s own nor the end of the process. -/
def Event.elsewhere : Event → Bool
  | .electionTimeout | .restart | .dieServing _ => false
  | _ => true

/-- The critical section calls `resetElectionTimer`: through `startElection`,
through `becomeFollower`, or in the handler itself. -/
def Proc.resetsElection (p : Proc) (ev : Event) : Bool :=
  match ev with
  | .electionOver _ => ev.campaigns p
  | .requestVote _ _ args =>
    decide (p.node.currentTerm < args.term) || (p.node.requestVote args).2.voteGranted
  | .voteReply _ _ reply => decide (p.node.currentTerm < reply.term)
  | .appendEntries _ _ args => decide (p.node.currentTerm ≤ args.term)
  | .appendReply _ reply => decide (p.node.currentTerm < reply.term)
  | .installSnapshot _ _ args => decide (p.node.currentTerm ≤ args.term)
  | .snapshotReply _ reply => decide (p.node.currentTerm < reply.term)
  | _ => false

/-- The critical section ends in `becomeLeader` or calls `sendHeartbeats`, which
both call `resetHeartbeatTimer`. -/
def Proc.resetsHeartbeat (p : Proc) (ev : Event) (p' : Proc) : Bool :=
  match ev with
  | .electionOver _ | .voteReply _ _ _ =>
    decide (p.node.state ≠ .leader ∧ p'.node.state = .leader)
  | .submitCommand _ _ _ => decide (p.node.state = .leader ∧ p.node.peers.keys ≠ [])
  | .appendStableConfig => decide (p.node.state = .leader ∧ p.node.configState = .joint)
  | _ => false

namespace LoopState

/-- `NewRaftNode` and `Start`. -/
def start (p : Proc) : LoopState where
  proc := p
  timers := [.running, .running]
  election := 0
  heartbeat := 1
  pos := .top

def resetElectionTimer (s : LoopState) : LoopState :=
  { s with
    timers := s.timers.modify s.election TimerStatus.stop ++ [.running]
    election := s.timers.length }

def resetHeartbeatTimer (s : LoopState) : LoopState :=
  { s with
    timers := s.timers.modify s.heartbeat TimerStatus.stop ++ [.running]
    heartbeat := s.timers.length }

/-- Reset the timers a critical section resets. -/
def resetTimers (s : LoopState) (election heartbeat : Bool) : LoopState :=
  let s := if election then s.resetElectionTimer else s
  if heartbeat then s.resetHeartbeatTimer else s

variable [GrowthPolicy]

/-- `run` with the lock: a leader starts its election timer again, another node
campaigns, and a leader whose heartbeat timer has fired sends heartbeats. -/
def handle (s : LoopState) : Option LoopState :=
  match s.pos with
  | .tookElection =>
    match s.proc.next .electionTimeout with
    | some p =>
      let leads := decide (s.proc.node.state ≠ .leader ∧ p.node.state = .leader)
      some ({ s with proc := p, pos := .top : LoopState }.resetTimers true leads)
    | none => none
  | .tookHeartbeat =>
    some ({ s with pos := .top : LoopState }.resetTimers false
      (decide (s.proc.node.state = .leader)))
  | _ => none

def step (s : LoopState) : LoopEvent → Option LoopState
  | .other ev =>
    match ev.elsewhere, s.proc.next ev with
    | true, some p =>
      some ({ s with proc := p : LoopState }.resetTimers (s.proc.resetsElection ev)
        (s.proc.resetsHeartbeat ev p))
    | _, _ => none
  | .fire timer =>
    if s.timers[timer]? = some .running then
      some { s with timers := s.timers.set timer .fired }
    else none
  | .enter =>
    match s.pos with
    | .top => some { s with pos := .blocked s.election s.heartbeat }
    | _ => none
  | .receiveElection =>
    match s.pos with
    | .blocked e _ =>
      if s.timers[e]? = some .fired then
        some { s with timers := s.timers.set e .drained, pos := .tookElection }
      else none
    | _ => none
  | .receiveHeartbeat =>
    match s.pos with
    | .blocked _ h =>
      if s.timers[h]? = some .fired then
        some { s with timers := s.timers.set h .drained, pos := .tookHeartbeat }
      else none
    | _ => none
  | .handle => s.handle
  | .stop =>
    match s.pos with
    | .blocked _ _ => some { s with pos := .returned }
    | _ => none

variable {s s' : LoopState} {l : LoopEvent}

omit [GrowthPolicy] in
@[simp] theorem resetTimers_pos (s : LoopState) (election heartbeat : Bool) :
    (s.resetTimers election heartbeat).pos = s.pos := by
  cases election <;> cases heartbeat <;> rfl

omit [GrowthPolicy] in
@[simp] theorem resetTimers_false_election (s : LoopState) (heartbeat : Bool) :
    (s.resetTimers false heartbeat).election = s.election := by
  cases heartbeat <;> rfl

/-- A step, with what it requires and the state it leads to. -/
inductive Move (s : LoopState) : LoopEvent → LoopState → Prop where
  | other (ev : Event) (p : Proc) (hp : s.proc.next ev = some p) :
      Move s (.other ev) ({ s with proc := p : LoopState }.resetTimers
        (s.proc.resetsElection ev) (s.proc.resetsHeartbeat ev p))
  | fire (timer : ℕ) (htimer : s.timers[timer]? = some .running) :
      Move s (.fire timer) { s with timers := s.timers.set timer .fired }
  | enter (hpos : s.pos = .top) : Move s .enter { s with pos := .blocked s.election s.heartbeat }
  | receiveElection (e hb : ℕ) (hpos : s.pos = .blocked e hb) (he : s.timers[e]? = some .fired) :
      Move s .receiveElection { s with timers := s.timers.set e .drained, pos := .tookElection }
  | receiveHeartbeat (e hb : ℕ) (hpos : s.pos = .blocked e hb)
      (hhb : s.timers[hb]? = some .fired) :
      Move s .receiveHeartbeat { s with timers := s.timers.set hb .drained, pos := .tookHeartbeat }
  | handle (hpos : s.pos = .tookElection ∨ s.pos = .tookHeartbeat) (p : Proc)
      (election heartbeat : Bool) :
      Move s .handle ({ s with proc := p, pos := .top : LoopState }.resetTimers election heartbeat)
  | stop (e hb : ℕ) (hpos : s.pos = .blocked e hb) : Move s .stop { s with pos := .returned }

theorem step_move (h : s.step l = some s') : s.Move l s' := by
  cases l with
  | other ev =>
    simp only [step] at h
    split at h
    · rename_i p _ hp
      cases h
      exact .other ev p hp
    · cases h
  | fire timer =>
    simp only [step] at h
    split at h
    · rename_i htimer
      cases h
      exact .fire timer htimer
    · cases h
  | enter =>
    simp only [step] at h
    split at h
    · rename_i hpos
      cases h
      exact .enter hpos
    · cases h
  | receiveElection =>
    simp only [step] at h
    split at h
    · rename_i e hb hpos
      split at h
      · rename_i he
        cases h
        exact .receiveElection e hb hpos he
      · cases h
    · cases h
  | receiveHeartbeat =>
    simp only [step] at h
    split at h
    · rename_i e hb hpos
      split at h
      · rename_i hhb
        cases h
        exact .receiveHeartbeat e hb hpos hhb
      · cases h
    · cases h
  | handle =>
    simp only [step, handle] at h
    -- only the election branch runs an event of the process
    split at h
    · rename_i hpos
      split at h
      · cases h
        exact .handle (Or.inl hpos) _ true _
      · cases h
    · rename_i hpos
      cases h
      exact .handle (Or.inr hpos) s.proc false _
    · cases h
  | stop =>
    simp only [step] at h
    split at h
    · rename_i e hb hpos
      cases h
      exact .stop e hb hpos
    · cases h

/-- `run` is blocked in its `select`. -/
def Blocked (s : LoopState) : Prop := ∃ e hb, s.pos = .blocked e hb

instance (s : LoopState) : Decidable s.Blocked :=
  match hpos : s.pos with
  | .blocked e hb => isTrue ⟨e, hb, hpos⟩
  | .top | .tookElection | .tookHeartbeat | .returned =>
    isFalse fun ⟨_, _, h⟩ => by rw [hpos] at h; cases h

/-- The step is not a reset of the election timer by another goroutine that
finds `run` blocked in its `select`. -/
def KeepsTimer (s : LoopState) (l : LoopEvent) (_ : LoopState) : Prop :=
  match l with
  | .other ev => s.proc.resetsElection ev = true → ¬ s.Blocked
  | _ => True

/-- `run` waits on the current election timer, if it waits. -/
def WaitsOnCurrent (s : LoopState) : Prop :=
  ∀ e hb, s.pos = .blocked e hb → e = s.election

theorem step_waitsOnCurrent (hinv : s.WaitsOnCurrent) (hkeeps : s.KeepsTimer l s')
    (h : s.step l = some s') : s'.WaitsOnCurrent := by
  intro e hb hpos
  cases step_move h with
  | other ev p hp =>
    rw [resetTimers_pos] at hpos
    -- a blocked `run` excludes a reset, so the timer is the one before the step
    cases hreset : s.proc.resetsElection ev with
    | true => exact absurd ⟨e, hb, hpos⟩ (hkeeps hreset)
    | false =>
      rw [resetTimers_false_election]
      exact hinv e hb hpos
  | fire timer htimer => exact hinv e hb hpos
  | enter htop =>
    cases hpos
    rfl
  | receiveElection => cases hpos
  | receiveHeartbeat => cases hpos
  | handle =>
    rw [resetTimers_pos] at hpos
    cases hpos
  | stop => cases hpos

/-! ### Dead timers -/

/-- The timer has been stopped or received from. -/
def DeadTimer (s : LoopState) (timer : ℕ) : Prop :=
  ∃ status, s.timers[timer]? = some status ∧ status.Dead

omit [GrowthPolicy] in
theorem getElem?_modify_stop {timers : List TimerStatus} {i : ℕ} {status : TimerStatus}
    (h : timers[i]? = some status) (hstop : status.stop = status) (j : ℕ) :
    (timers.modify j TimerStatus.stop ++ [.running])[i]? = some status := by
  have hlt : i < timers.length := (List.getElem?_eq_some_iff.mp h).1
  rw [List.getElem?_append_left (by rw [List.length_modify]; exact hlt), List.getElem?_modify, h]
  by_cases hij : j = i
  · simp [hij, hstop]
  · simp [hij]

omit [GrowthPolicy] in
/-- A reset leaves alone every timer that `Stop` does nothing to. -/
theorem getElem?_resetTimers {i : ℕ} {status : TimerStatus} (h : s.timers[i]? = some status)
    (hstop : status.stop = status) (election heartbeat : Bool) :
    (s.resetTimers election heartbeat).timers[i]? = some status := by
  cases election <;> cases heartbeat
  · exact h
  · exact getElem?_modify_stop h hstop _
  · exact getElem?_modify_stop h hstop _
  · exact getElem?_modify_stop (getElem?_modify_stop h hstop _) hstop _

omit [GrowthPolicy] in
theorem DeadTimer.resetTimers {timer : ℕ} (h : s.DeadTimer timer) (election heartbeat : Bool) :
    (s.resetTimers election heartbeat).DeadTimer timer := by
  obtain ⟨status, hget, hdead⟩ := h
  exact ⟨status, getElem?_resetTimers hget (TimerStatus.stop_of_dead hdead) _ _, hdead⟩

omit [GrowthPolicy] in
/-- A timer that is set to another status was not dead. -/
theorem DeadTimer.set {timer other : ℕ} {status : TimerStatus} (h : s.DeadTimer timer)
    (hother : ∃ live, s.timers[other]? = some live ∧ ¬ live.Dead) :
    ∃ st, (s.timers.set other status)[timer]? = some st ∧ st.Dead := by
  obtain ⟨st, hget, hdead⟩ := h
  obtain ⟨live, hlive, hnot⟩ := hother
  have hne : other ≠ timer := by
    rintro rfl
    rw [hlive] at hget
    exact hnot (Option.some.inj hget ▸ hdead)
  exact ⟨st, by rw [List.getElem?_set_ne hne]; exact hget, hdead⟩

/-- A dead timer stays dead. -/
theorem step_deadTimer {timer : ℕ} (hdead : s.DeadTimer timer) (h : s.step l = some s') :
    s'.DeadTimer timer := by
  have hrunning : ¬ TimerStatus.Dead .running := by
    rintro (h | h) <;> cases h
  have hfired : ¬ TimerStatus.Dead .fired := by
    rintro (h | h) <;> cases h
  cases step_move h with
  | other ev p hp => exact DeadTimer.resetTimers (s := { s with proc := p }) hdead _ _
  | fire t ht => exact hdead.set ⟨_, ht, hrunning⟩
  | enter => exact hdead
  | receiveElection e hb _ he => exact hdead.set ⟨_, he, hfired⟩
  | receiveHeartbeat e hb _ hhb => exact hdead.set ⟨_, hhb, hfired⟩
  | handle _ p => exact DeadTimer.resetTimers (s := { s with proc := p, pos := .top }) hdead _ _
  | stop => exact hdead

omit [GrowthPolicy] in
theorem DeadTimer.not_fired {timer : ℕ} (h : s.DeadTimer timer) :
    s.timers[timer]? ≠ some .fired := by
  rintro hfired
  obtain ⟨status, hget, rfl | rfl⟩ := h <;> · rw [hfired] at hget; cases hget

/-- `run` is blocked on two dead timers. -/
structure Wedged (s : LoopState) (e hb : ℕ) : Prop where
  pos : s.pos = .blocked e hb
  election : s.DeadTimer e
  heartbeat : s.DeadTimer hb

/-- A wedged `run` does not move until the node is stopped. -/
theorem Wedged.step {e hb : ℕ} (hwedged : s.Wedged e hb) (h : s.step l = some s') :
    s'.Wedged e hb ∨ s'.pos = .returned := by
  have hpos := hwedged.pos
  suffices s'.pos = .blocked e hb ∨ s'.pos = .returned by
    rcases this with hstay | hstop
    · exact Or.inl ⟨hstay, step_deadTimer hwedged.election h, step_deadTimer hwedged.heartbeat h⟩
    · exact Or.inr hstop
  cases step_move h with
  | other => exact Or.inl ((resetTimers_pos _ _ _).trans hpos)
  | fire => exact Or.inl hpos
  | enter htop => cases hpos.symm.trans htop
  | receiveElection e' hb' hpos' he =>
    cases hpos.symm.trans hpos'
    exact absurd he hwedged.election.not_fired
  | receiveHeartbeat e' hb' hpos' hhb =>
    cases hpos.symm.trans hpos'
    exact absurd hhb hwedged.heartbeat.not_fired
  | handle htook => rcases htook with htook | htook <;> cases hpos.symm.trans htook
  | stop => exact Or.inr rfl

/-- A `run` that has returned does not come back. -/
theorem step_returned (hpos : s.pos = .returned) (h : s.step l = some s') :
    s'.pos = .returned := by
  cases step_move h with
  | other => exact (resetTimers_pos _ _ _).trans hpos
  | fire => exact hpos
  | enter htop => cases hpos.symm.trans htop
  | receiveElection e hb hpos' _ => cases hpos.symm.trans hpos'
  | receiveHeartbeat e hb hpos' _ => cases hpos.symm.trans hpos'
  | handle htook => rcases htook with htook | htook <;> cases hpos.symm.trans htook
  | stop => rfl

end LoopState

open LoopState

section

variable [GrowthPolicy]

/-- **A wedged run loop**: once `run` is blocked on two timers that have been stopped or received
from, no later step makes it receive anything. It stays where it is until `stopCh` is closed. -/
theorem stays_blocked {s t : LoopState} {e hb : ℕ} (hwedged : s.Wedged e hb)
    (hrun : Run step (fun _ _ _ => True) s t) : t.pos = .blocked e hb ∨ t.pos = .returned := by
  have hinv : t.Wedged e hb ∨ t.pos = .returned := by
    refine hrun.invariant (P := fun t => t.Wedged e hb ∨ t.pos = .returned) (Or.inl hwedged) ?_
    rintro t l u (ht | ht) - hst
    · exact ht.step hst
    · exact Or.inr (step_returned ht hst)
  exact hinv.imp Wedged.pos id

/-- **Condition on a run**: where no other goroutine resets the election timer
while `run` is blocked in its `select`, the channel `run` waits on is always
that of the current `r.electionTimer`. -/
theorem waits_on_current_timer {selfAddr : String} {peerList : List String} {dataDir : String}
    {disk : Disk} {s : LoopState}
    (hrun : Run step KeepsTimer (start (.boot selfAddr peerList dataDir disk)) s)
    {e hb : ℕ} (hpos : s.pos = .blocked e hb) : e = s.election := by
  refine hrun.invariant (P := WaitsOnCurrent) ?_ ?_ e hb hpos
  · intro e hb hpos
    cases hpos
  · intro t l u ht hg hst
    exact step_waitsOnCurrent ht hg hst

end

instance (s : LoopState) (l : LoopEvent) (s' : LoopState) : Decidable (s.KeepsTimer l s') := by
  unfold KeepsTimer
  split <;> infer_instance

section traces

open scoped GrowthPolicy

/-- The heartbeat of a leader. -/
def leaderHeartbeat : Event :=
  .appendEntries "b" 0
    { term := 1, leaderId := "b", prevLogIndex := 0, prevLogTerm := 0, entries := [],
      leaderCommit := 0 }

/-- A heartbeat that arrives while `run` is on its way to the `select` is
harmless. -/
theorem waits_on_current_timer_two :
    ∃ s, Run step KeepsTimer (start (.boot "a" ["b", "c"] "data" {})) s ∧
      s.pos = .blocked 2 1 ∧ 2 = s.election := by
  have htrace : ∃ s, Run step KeepsTimer (start (.boot "a" ["b", "c"] "data" {})) s ∧
      s.pos = .blocked 2 1 :=
    exists_run_of_execWith
      [.enter, .fire 1, .receiveHeartbeat, .other leaderHeartbeat, .handle, .enter]
      (by decide +kernel)
  obtain ⟨s, hrun, hpos⟩ := htrace
  exact ⟨s, hrun, hpos, waits_on_current_timer hrun hpos⟩

/-- **A follower whose timers are lost.** Its heartbeat timer has fired once and is
not started again, since it is not the leader; then a heartbeat arrives while `run`
is blocked. `run` waits on a stopped timer and on a drained one, and the current
election timer is a third one. -/
theorem waits_on_stopped_timer :
    ∃ s, Run step (fun _ _ _ => True) (start (.boot "a" ["b", "c"] "data" {})) s ∧
      s.pos = .blocked 0 1 ∧ s.election = 2 ∧ s.timers = [.stopped, .drained, .running] :=
  exists_run_of_execWith
    [.enter, .fire 1, .receiveHeartbeat, .handle, .enter, .other leaderHeartbeat]
    (by decide +kernel)

/-- The next heartbeat resets the third timer once more and `run` stays blocked. -/
theorem stays_blocked_heartbeat :
    ∃ s t : LoopState, s.Wedged 0 1 ∧ t.election = 3 ∧
      (t.pos = .blocked 0 1 ∨ t.pos = .returned) := by
  let s : LoopState :=
    ⟨.boot "a" ["b", "c"] "data" {}, [.stopped, .drained, .running], 2, 1, .blocked 0 1⟩
  have hwedged : s.Wedged 0 1 := ⟨rfl, ⟨_, rfl, .inl rfl⟩, ⟨_, rfl, .inr rfl⟩⟩
  obtain ⟨t, hrun, helection⟩ : ∃ t, Run step (fun _ _ _ => True) s t ∧ t.election = 3 :=
    exists_run_of_execWith [.other leaderHeartbeat] (by decide +kernel)
  exact ⟨s, t, hwedged, helection, stays_blocked hwedged hrun⟩

end traces

end DistributedMQ.Raft
