import DistributedMQ.Broker.Produce
import DistributedMQ.Lib.Machine
import DistributedMQ.Raft.Pending

/-!
# What `acks = -1` promises

A producer that asks for `acks = -1` is answered `RespSuccess` when its commit
channel is closed. That means its entry is committed if nothing but the commit
loop closes channels.

- `ProduceInv`: every handler that waits has its entry in the log with the
  channel on file, or the entry has been committed; every success with
  `acks = -1` is for an entry that has been committed.
- `acksAll_committed`: in every run in which the node meets no newer term while
  a channel is on file (`BrokerProc.Patient`), a success means committed.

`becomeFollower` closes the channels of all requests that still wait, and each
of them is then answered with success (`success_without_commit`).
-/

namespace DistributedMQ.Broker

open Raft Raft.RaftNode Machine

/-- The Raft event of a broker event. -/
def BrokerEvent.raftEvent : BrokerEvent → Option Event
  | .raft ev => some ev
  | _ => none

/-- The process is not restarted. -/
def staysUp : Event → Bool
  | .restart => false
  | .dieServing _ => false
  | _ => true

theorem not_restarts_of_staysUp {ev : Event} (h : staysUp ev = true) : ¬ ev.Restarts := by
  cases ev <;> simp_all [staysUp, Event.Restarts]

namespace BrokerProc

/-- The steps of a broker that stays up and whose Raft node is the only leader
of its terms. -/
def Serving (b : BrokerProc) (ev : BrokerEvent) (_ : BrokerProc) : Prop :=
  ∀ e ∈ ev.raftEvent, staysUp e = true ∧ b.raft.AloneInTerm e

/-- No message with a newer term finds a channel on file. -/
def Patient (b : BrokerProc) (ev : BrokerEvent) (b' : BrokerProc) : Prop :=
  b.Serving ev b' ∧ ∀ e ∈ ev.raftEvent, b.raft.StepsDownIdle e

instance (b : BrokerProc) (ev : BrokerEvent) (b' : BrokerProc) : Decidable (b.Serving ev b') :=
  inferInstanceAs (Decidable (∀ e ∈ ev.raftEvent, _))

instance (b : BrokerProc) (ev : BrokerEvent) (b' : BrokerProc) : Decidable (b.Patient ev b') :=
  inferInstanceAs (Decidable (_ ∧ ∀ e ∈ ev.raftEvent, _))

end BrokerProc

/-! ## The invariant -/

/-- What a node has to do with a handler, given what `tied` says about the entry
of one that waits. -/
structure HandlerInv (tied : ℕ → ℕ → LogEntry → Prop) (h : Handler) : Prop where
  waiting : ∀ n ch, h.phase = .waiting n ch →
    ∃ e, h.created = some (n, e) ∧ (h.committed = true ∨ tied n ch e)
  answered : ∀ resp, h.phase = .answered resp → resp.status = .success → h.req.acks = -1 →
    (∃ e, h.created = some (resp.offset, e)) ∧ h.committed = true

/-- The entry is in the log with its channel on file. -/
def OnFile (r : RaftNode) (n ch : ℕ) (e : LogEntry) : Prop :=
  r.pendingCommit.lookup n = some ch ∧ r.log.elems[n]? = some e

/-- The entry is in the log with its channel on file, or committed. -/
def Near (r : RaftNode) (n ch : ℕ) (e : LogEntry) : Prop :=
  r.log.elems[n]? = some e ∧ (r.pendingCommit.lookup n = some ch ∨ n ≤ r.commitIndex)

structure ProduceInv (b : BrokerProc) : Prop where
  node : PendingOk b.raft.node
  handler : ∀ h ∈ b.handlers, HandlerInv (OnFile b.raft.node) h

theorem HandlerInv.mono {tied tied' : ℕ → ℕ → LogEntry → Prop} {h : Handler}
    (hinv : HandlerInv tied h) (hmono : ∀ n ch e, tied n ch e → tied' n ch e) :
    HandlerInv tied' h where
  waiting n ch hphase := by
    obtain ⟨e, hcreated, htied⟩ := hinv.waiting n ch hphase
    exact ⟨e, hcreated, htied.imp_right (hmono n ch e)⟩
  answered := hinv.answered

theorem onFile_near {r : RaftNode} {n ch : ℕ} {e : LogEntry} (h : OnFile r n ch e) :
    Near r n ch e :=
  ⟨h.2, Or.inl h.1⟩

theorem Near.of_carries {r r' : RaftNode} (hcarry : Carries r r') {n ch : ℕ} {e : LogEntry}
    (h : OnFile r n ch e) : Near r' n ch e :=
  hcarry n ch e h.1 h.2

/-- A handler in neither of the two phases is in order. -/
theorem HandlerInv.of_phase {tied : ℕ → ℕ → LogEntry → Prop} {h : Handler}
    (hwait : ∀ n ch, h.phase ≠ .waiting n ch)
    (hans : ∀ resp, h.phase = .answered resp → resp.status ≠ .success) : HandlerInv tied h where
  waiting n ch hphase := absurd hphase (hwait n ch)
  answered resp hphase hsucc := absurd hsucc (hans resp hphase)

/-- Observing turns "committed by now" into "committed". -/
theorem HandlerInv.observe {r : RaftNode} {h : Handler} (hinv : HandlerInv (Near r) h) :
    HandlerInv (OnFile r) (h.observe r) := by
  unfold Handler.observe
  split
  · -- the answer is out: nothing is recorded any more
    rename_i resp hphase
    refine ⟨fun n ch hwait => ?_, hinv.answered⟩
    rw [hphase] at hwait
    cases hwait
  · rename_i hphase
    have hnot : ∀ resp, h.phase ≠ .answered resp := fun resp heq => hphase resp heq
    split
    · refine ⟨fun n ch hwait => ?_, fun resp heq => absurd heq (hnot resp)⟩
      obtain ⟨e, hcreated, -⟩ := hinv.waiting n ch hwait
      exact ⟨e, hcreated, Or.inl rfl⟩
    · rename_i hreached
      refine ⟨fun n ch hwait => ?_, fun resp heq => absurd heq (hnot resp)⟩
      obtain ⟨e, hcreated, hcommitted | ⟨hlog, hfile | hle⟩⟩ := hinv.waiting n ch hwait
      · exact ⟨e, hcreated, Or.inl hcommitted⟩
      · exact ⟨e, hcreated, Or.inr ⟨hfile, hlog⟩⟩
      · exact absurd ⟨(n, e), hcreated, hlog, hle⟩ hreached

namespace BrokerProc

/-- What holds after an event, before the history variables are updated. -/
structure Fired (b : BrokerProc) : Prop where
  node : PendingOk b.raft.node
  handler : ∀ h ∈ b.handlers, HandlerInv (Near b.raft.node) h

theorem Fired.observe {b : BrokerProc} (h : b.Fired) : ProduceInv b.observe where
  node := h.node
  handler h' hh' := by
    obtain ⟨h₀, hh₀, rfl⟩ := List.mem_map.mp hh'
    exact (h.handler h₀ hh₀).observe

/-- One handler is replaced. -/
theorem Fired.set {b : BrokerProc} (h : b.Fired) {k : ℕ} {h' : Handler}
    (hh' : HandlerInv (Near b.raft.node) h') : (b.setHandler k h').Fired where
  node := h.node
  handler h₀ hh₀ := by
    rcases List.mem_or_eq_of_mem_set hh₀ with hold | rfl
    · exact h.handler h₀ hold
    · exact hh'

theorem fired {b : BrokerProc} (h : ProduceInv b) : b.Fired where
  node := h.node
  handler h' hh' := (h.handler h' hh').mono fun _ _ _ => onFile_near

/-- The node takes a step that carries its entries. -/
theorem fired_of_carries {b : BrokerProc} (h : ProduceInv b) {p : Proc}
    (hok : PendingOk p.node) (hcarry : Carries b.raft.node p.node) :
    ({ b with raft := p } : BrokerProc).Fired where
  node := hok
  handler h' hh' := (h.handler h' hh').mono fun _ _ _ => Near.of_carries hcarry

theorem withHandler_inv {b b' : BrokerProc} {k : ℕ} {f : Handler → Option BrokerProc}
    (h : b.withHandler k f = some b') : ∃ h' ∈ b.handlers, f h' = some b' := by
  unfold withHandler at h
  split at h
  · rename_i h' hget
    exact ⟨h', List.mem_of_getElem? hget, h⟩
  · cases h

end BrokerProc

/-- An answer other than success. -/
theorem answer_inv {tied : ℕ → ℕ → LogEntry → Prop} (h : Handler) {resp : Response}
    (hresp : resp.status ≠ .success) : HandlerInv tied (h.answer resp) := by
  refine .of_phase (fun n ch heq => (by cases heq)) fun resp' heq => ?_
  obtain rfl := Phase.answered.inj heq
  exact hresp

theorem onLookup_inv {tied : ℕ → ℕ → LogEntry → Prop} (h : Handler) (clientAddr : String)
    (leader : Option String) : HandlerInv tied (h.onLookup clientAddr leader) := by
  unfold Handler.onLookup
  split
  · exact answer_inv h (by simp)
  split
  · exact .of_phase (fun n ch heq => (by cases heq)) fun resp heq => (by cases heq)
  · exact answer_inv h (by simp)

theorem onLookupAgain_inv {tied : ℕ → ℕ → LogEntry → Prop} (h : Handler) (first : String)
    (leader : Option String) : HandlerInv tied (h.onLookupAgain first leader) := by
  unfold Handler.onLookupAgain
  split
  · exact answer_inv h (by simp)
  · exact answer_inv h (by simp)

section runs

variable [GrowthPolicy]

/-- After `SubmitCommand` the new entry is in the log with its channel on file, or
committed. -/
theorem onSubmit_inv (r : RaftNode) (h : Handler) :
    HandlerInv (Near (r.submitCommand h.req.topic h.req.partition h.req.msgData).1)
      (h.onSubmit (r.commandEntry h.req.topic h.req.partition h.req.msgData)
        (r.submitCommand h.req.topic h.req.partition h.req.msgData).2) := by
  cases hres : (r.submitCommand h.req.topic h.req.partition h.req.msgData).2 with
  | error msg =>
    exact answer_inv h (by simp)
  | ok res =>
    obtain ⟨n, ch⟩ := res
    have hcreated := submitCommand_created hres
    unfold Handler.onSubmit
    dsimp only
    by_cases hacks : h.req.acks = -1
    · simp only [hacks, if_true]
      refine ⟨fun n' ch' heq => ?_, fun resp heq => by cases heq⟩
      obtain ⟨rfl, rfl⟩ := Phase.waiting.inj heq
      exact ⟨_, rfl, Or.inr hcreated⟩
    · simp only [if_neg hacks]
      exact ⟨fun n' ch' heq => (by cases heq), fun resp _ _ hno => absurd hno hacks⟩

/-- A patient step keeps each waiting handler tied to the entry it submitted. -/
theorem ProduceInv.step {b b' : BrokerProc} {ev : BrokerEvent} (h : ProduceInv b)
    (hg : b.Patient ev b') (hst : b.step ev = some b') : ProduceInv b' := by
  unfold BrokerProc.step at hst
  split at hst
  case isFalse => cases hst
  case isTrue =>
  obtain ⟨b₁, hfire, rfl⟩ := Option.map_eq_some_iff.mp hst
  refine BrokerProc.Fired.observe ?_
  have hfired := BrokerProc.fired h
  cases ev with
  | raft e =>
    obtain ⟨hserving, hidle⟩ := hg
    obtain ⟨hup, halone⟩ := hserving e rfl
    unfold BrokerProc.fire at hfire
    dsimp only at hfire
    split at hfire
    · rename_i p out hp
      cases hfire
      obtain ⟨hok, hcarry⟩ := (Proc.step_nodeOp hp).pending h.node
        (not_restarts_of_staysUp hup) (hidle e rfl) halone
      exact BrokerProc.fired_of_carries h hok hcarry
    · cases hfire
  | produce req =>
    cases hfire
    refine ⟨h.node, fun h' hh' => ?_⟩
    rcases List.mem_append.mp hh' with hh' | hh'
    · exact hfired.handler h' hh'
    · rw [List.mem_singleton.mp hh']
      exact .of_phase (fun n ch heq => (by cases heq)) fun resp heq => by cases heq
  | lookup k leader =>
    obtain ⟨h', -, hf⟩ := BrokerProc.withHandler_inv hfire
    split at hf
    case h_2 => cases hf
    case h_1 =>
      cases hf
      exact hfired.set (onLookup_inv h' b.clientAddr leader)
  | isPartitionLeader k =>
    obtain ⟨h', -, hf⟩ := BrokerProc.withHandler_inv hfire
    split at hf
    case h_2 => cases hf
    case h_1 =>
      cases hf
      refine hfired.set (.of_phase (fun n ch heq => ?_) fun resp heq => ?_)
      · dsimp only at heq
        split at heq <;> cases heq
      · dsimp only at heq
        split at heq <;> cases heq
  | lookupAgain k leader =>
    obtain ⟨h', -, hf⟩ := BrokerProc.withHandler_inv hfire
    split at hf
    case h_2 => cases hf
    case h_1 first _ =>
      cases hf
      exact hfired.set (onLookupAgain_inv h' first leader)
  | submit k =>
    obtain ⟨h', -, hf⟩ := BrokerProc.withHandler_inv hfire
    split at hf
    case h_2 => cases hf
    case h_1 =>
      cases hf
      obtain ⟨hok, hcarry⟩ :=
        submitCommand_pending h.node h'.req.topic h'.req.partition h'.req.msgData
      exact (BrokerProc.fired_of_carries (p := { b.raft with node := _ }) h hok hcarry).set
        (onSubmit_inv b.raft.node h')
  | commitClosed k =>
    obtain ⟨h', hh', hf⟩ := BrokerProc.withHandler_inv hfire
    split at hf
    case h_2 => cases hf
    case h_1 n ch hphase =>
      split at hf
      case isFalse => cases hf
      case isTrue hclosed =>
        cases hf
        -- the channel is closed, so it is not on file any more
        obtain ⟨e, hcreated, hcommitted | hfile⟩ := (h.handler h' hh').waiting n ch hphase
        · refine hfired.set ⟨fun n' ch' heq => (by cases heq), fun resp heq _ _ => ?_⟩
          obtain rfl := Phase.answered.inj heq
          exact ⟨⟨e, hcreated⟩, hcommitted⟩
        · exact absurd hclosed (h.node.isOpen n ch hfile.1).2
  | timeout k =>
    obtain ⟨h', -, hf⟩ := BrokerProc.withHandler_inv hfire
    split at hf
    case h_2 => cases hf
    case h_1 =>
      cases hf
      exact hfired.set (answer_inv h' (by simp))

/-! ## Runs -/

theorem produceInv_boot (clientAddr selfAddr : String) (peers : List String) (dataDir : String)
    (disk : Disk) : ProduceInv (BrokerProc.boot clientAddr selfAddr peers dataDir disk) := by
  have hnone : ∀ n ch,
      (newRaftNode selfAddr peers dataDir disk).pendingCommit.lookup n ≠ some ch := by
    intro n ch
    rw [newRaftNode_pendingCommit]
    simp
  refine ⟨⟨fun n ch hn => absurd hn (hnone n ch), fun n ch hn => absurd hn (hnone n ch),
    fun n ch hn => absurd hn (hnone n ch), fun n m ch hn => absurd hn (hnone n ch),
    fun ch hch => ?_⟩, by rintro h ⟨⟩⟩
  change ch ∈ (newRaftNode selfAddr peers dataDir disk).chansClosed at hch
  rw [newRaftNode_chansClosed] at hch
  cases hch

/-- **`acks = -1` is durable** in every run in which no newer term reaches the
node while a request waits: a success answer is for an entry that the commit
index has reached in the log before. -/
theorem acksAll_committed {clientAddr selfAddr : String} {peers : List String} {dataDir : String}
    {disk : Disk} {b : BrokerProc}
    (hrun : Run BrokerProc.step BrokerProc.Patient
      (BrokerProc.boot clientAddr selfAddr peers dataDir disk) b)
    {h : Handler} (hh : h ∈ b.handlers) (hacks : h.req.acks = -1) {resp : Response}
    (hans : h.phase = .answered resp) (hsucc : resp.status = .success) :
    (∃ e, h.created = some (resp.offset, e)) ∧ h.committed = true := by
  have hinv : ProduceInv b := by
    refine hrun.invariant (P := ProduceInv) (produceInv_boot _ _ _ _ _) ?_
    intro t ev u ht hg hst
    exact ht.step hg hst
  exact (hinv.handler h hh).answered resp hans hsucc hacks

end runs

section traces

open scoped GrowthPolicy

/-- A request with `acks = -1`. -/
def produceAll : ProduceRequest := { topic := "t", partition := 0, data := [0xFF, 7] }

/-- The broker's node is elected and its first handler submits the command. -/
def submitFirst (term : ℕ) : List BrokerEvent :=
  [.raft .electionTimeout,
    .raft (.voteReply 0 "b" { term := term, voteGranted := true }),
    .produce produceAll,
    .lookup 0 (some "a:9092"),
    .isPartitionLeader 0,
    .submit 0]

/-- A broker of three whose log is long enough for `AppendEntries`. -/
def savedBroker : BrokerProc :=
  BrokerProc.boot "a:9092" "a" ["a", "b", "c"] "data"
    (Cluster.savedDisk ["a", "b", "c"] 1 999
      ((List.range 999).map fun k => { term := 0, index := k + 1 }))

theorem acksAll_committed_one :
    ∃ (b : BrokerProc) (h : Handler), h ∈ b.handlers ∧ h.req = produceAll ∧
      h.phase = .answered { status := .success, offset := 1000 } ∧
      ((∃ e, h.created = some (1000, e)) ∧ h.committed = true) := by
  obtain ⟨b, hrun, h, hh, hreq, hphase⟩ : ∃ b, Run BrokerProc.step BrokerProc.Patient savedBroker b ∧
      ∃ h ∈ b.handlers, h.req = produceAll ∧
        h.phase = .answered { status := .success, offset := 1000 } :=
    exists_run_of_execWith
      (submitFirst 2 ++
        [.raft (.sendAppendEntries "b"),
          .raft (.appendReply 1 { term := 2, success := true, lastLogIndex := 1000 }),
          .commitClosed 0])
      (by decide +kernel)
  exact ⟨b, h, hh, hreq, hphase, acksAll_committed hrun hh (by rw [hreq]; decide) hphase rfl⟩

/-- A vote request with a newer term makes the leader step down, which closes
the channel of the request that waits: the producer is told success for an entry
that was never committed. -/
theorem success_without_commit :
    ∃ b, Run BrokerProc.step BrokerProc.Serving
        (BrokerProc.boot "a:9092" "a" ["a", "b", "c"] "data" {}) b ∧
      b.raft.node.commitIndex = 0 ∧
      ∃ h ∈ b.handlers, h.req.acks = -1 ∧
        h.phase = .answered { status := .success, offset := 1 } ∧
        h.created = some (1, { term := 1, index := 1, topic := "t", data := [7] }) ∧
        h.committed = false :=
  exists_run_of_execWith
    (submitFirst 1 ++
      [.raft (.requestVote "b" 0
          { term := 2, candidateId := "b", lastLogIndex := 0, lastLogTerm := 0 }),
        .commitClosed 0])
    (by decide +kernel)

end traces

end DistributedMQ.Broker
