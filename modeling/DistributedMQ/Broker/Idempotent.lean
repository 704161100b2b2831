import DistributedMQ.Lib.Eviction
import DistributedMQ.Lib.Machine
import DistributedMQ.Raft.Static

/-!
# Idempotent produce (`broker.go` lines 393–459, `idempotent/idempotent.go` lines 15–102)

A producer that gives its messages sequence numbers may send them again:
`CheckAndRecord` lets the broker submit each number once. `Produce` records the
number first and calls `SubmitCommand` afterwards.

The answers of `CheckPermission` and of the name server, the clock readings and the
order of the producer map are inputs. Calls of `Produce` come one after the other,
but anything may happen to the Raft node between two of them and between the two
halves of one. `ProduceBroker` remembers the calls answered so far and those that
were submitted.

- `checkAndRecord_ok_false`, `lookup_checkAndRecord`: what a number on record means.
- `produce_submitted`: every message that a producer is told to be accepted has been
  submitted, as long as `SubmitCommand` finds the node leading after a number was
  recorded.
- `retry_after_error_not_submitted`: a producer that is told `not leader` and tries
  again is told success, and nothing was submitted.
-/

namespace DistributedMQ.Broker

open Raft Machine

/-! ## The producers on record -/

/-- Times are counted from the zero `time.Time`. -/
structure ProducerState where
  lastSequenceNumber : ℤ
  lastActiveTime : ℕ
  topicPartition : String
deriving DecidableEq

structure IdempotentManager where
  producerState : GoMap String ProducerState := ∅
  maxProducers : ℤ
  expireAfter : ℤ

namespace IdempotentManager

/-- The producer the eviction loop of `CheckAndRecord` ends with, in this order of
the map. -/
def oldest (order : List (String × ProducerState)) : String :=
  Eviction.oldest ProducerState.lastActiveTime "" order

/-- Evict a producer if there are too many. -/
def makeRoom (im : IdempotentManager) (order : List (String × ProducerState)) :
    IdempotentManager :=
  if im.maxProducers ≤ im.producerState.len then
    { im with producerState := im.producerState.erase (oldest order) }
  else im

/-- `CheckAndRecord`: true for a new number, false for the last one again. -/
def checkAndRecord (im : IdempotentManager) (order : List (String × ProducerState)) (now : ℕ)
    (pid : String) (seq : ℤ) (topicPartition : String) : IdempotentManager × Except String Bool :=
  match im.producerState.lookup pid with
  | none =>
    let im := im.makeRoom order
    ({ im with
       producerState := im.producerState.insert pid
         { lastSequenceNumber := seq, lastActiveTime := now, topicPartition } }, .ok true)
  | some state =>
    if state.topicPartition ≠ topicPartition then
      (im, .error s!"producer {pid} is bound to different topic/partition: {state.topicPartition} vs {topicPartition}")
    else if seq < state.lastSequenceNumber then
      (im, .error s!"sequence number {seq} is less than last recorded {state.lastSequenceNumber}")
    else if seq = state.lastSequenceNumber then (im, .ok false)
    else
      ({ im with
         producerState := im.producerState.insert pid
           { state with lastSequenceNumber := seq, lastActiveTime := now } }, .ok true)

/-- A tick of `cleanupExpired`. -/
def cleanupExpired (im : IdempotentManager) (now : ℕ) : IdempotentManager :=
  { im with
    producerState := im.producerState.filter fun _ state =>
      ¬im.expireAfter < (now : ℤ) - state.lastActiveTime }

variable {im : IdempotentManager} {order : List (String × ProducerState)} {now : ℕ}
  {pid topicPartition : String} {seq : ℤ}

theorem lookup_makeRoom {p : String} {state : ProducerState}
    (h : (im.makeRoom order).producerState.lookup p = some state) :
    im.producerState.lookup p = some state := by
  rw [makeRoom] at h
  split at h
  · by_cases heq : p = oldest order
    · subst heq
      rw [AList.lookup_erase] at h
      exact absurd h nofun
    · rwa [AList.lookup_erase_ne heq] at h
  · exact h

/-- What is on record after a call was so before, or is the number of the call,
which was new. -/
theorem lookup_checkAndRecord {p : String} {state : ProducerState}
    (h : (im.checkAndRecord order now pid seq topicPartition).1.producerState.lookup p =
      some state) :
    im.producerState.lookup p = some state ∨
      p = pid ∧ state.lastSequenceNumber = seq ∧ state.topicPartition = topicPartition ∧
        (im.checkAndRecord order now pid seq topicPartition).2 = .ok true := by
  unfold checkAndRecord at h ⊢
  cases hpid : im.producerState.lookup pid with
  | none =>
    simp only [hpid] at h ⊢
    by_cases heq : p = pid
    · subst heq
      rw [AList.lookup_insert] at h
      cases h
      exact Or.inr ⟨rfl, rfl, rfl, trivial⟩
    · exact Or.inl (lookup_makeRoom ((AList.lookup_insert_ne heq).symm.trans h))
  | some old =>
    simp only [hpid] at h ⊢
    by_cases htp : old.topicPartition = topicPartition
    · rw [if_neg (not_not.mpr htp)] at h ⊢
      split_ifs at h ⊢
      · exact Or.inl h
      · exact Or.inl h
      · by_cases heq : p = pid
        · subst heq
          rw [AList.lookup_insert] at h
          cases h
          exact Or.inr ⟨rfl, rfl, htp, rfl⟩
        · exact Or.inl ((AList.lookup_insert_ne heq).symm.trans h)
    · rw [if_pos htp] at h
      exact Or.inl h

/-- A number that is taken for a duplicate is on record. -/
theorem checkAndRecord_ok_false
    (h : (im.checkAndRecord order now pid seq topicPartition).2 = .ok false) :
    ∃ state, im.producerState.lookup pid = some state ∧ state.lastSequenceNumber = seq ∧
      state.topicPartition = topicPartition := by
  unfold checkAndRecord at h
  cases hpid : im.producerState.lookup pid with
  | none =>
    simp only [hpid] at h
    exact absurd h nofun
  | some state =>
    simp only [hpid] at h
    by_cases htp : state.topicPartition = topicPartition
    · rw [if_neg (not_not.mpr htp)] at h
      split_ifs at h with hlt heq
      · exact ⟨state, rfl, heq.symm, htp⟩
      · exact absurd h nofun
    · rw [if_pos htp] at h
      exact absurd h nofun

theorem lookup_cleanupExpired {p : String} {state : ProducerState}
    (h : (im.cleanupExpired now).producerState.lookup p = some state) :
    im.producerState.lookup p = some state := by
  rw [cleanupExpired, GoMap.lookup_filter] at h
  exact (Option.filter_eq_some_iff.mp h).1

end IdempotentManager

/-! ## `Produce` -/

/-- The arguments of `Produce`. -/
structure ProduceCall where
  topic : String
  key : String
  value : List UInt8
  userID : String
  producerID : String
  seqNum : ℤ
deriving DecidableEq

/-- The fields of the route that `Produce` reads. -/
structure RouteInfo where
  partition : ℤ
  leader : String
deriving DecidableEq

/-- The fields of the `Message` that `Produce` returns. -/
structure ProducedMessage where
  topic : String
  partition : ℤ
  key : String
  value : List UInt8
  timestamp : ℕ
deriving DecidableEq

/-- What a call returned. -/
structure Answer where
  call : ProduceCall
  result : Except String ProducedMessage

/-- A call of `Produce` with the partition of its route. -/
structure RoutedCall where
  call : ProduceCall
  partition : ℤ
deriving DecidableEq

/-- `fmt.Sprintf("%s-%d", topic, route.Partition)`. -/
def RoutedCall.topicPartition (x : RoutedCall) : String := s!"{x.call.topic}-{x.partition}"

/-- The returned message. -/
def RoutedCall.message (x : RoutedCall) (now : ℕ) : ProducedMessage where
  topic := x.call.topic
  partition := x.partition
  key := x.call.key
  value := x.call.value
  timestamp := now

/-- What the message of a call is known by: its producer, its number and the
partition the producer is bound to. -/
def RoutedCall.number (x : RoutedCall) : String × ℤ × String :=
  (x.call.producerID, x.call.seqNum, x.topicPartition)

/-- Both calls send the same message. Calls without a producer all send their own. -/
def RoutedCall.SameMessage (x y : RoutedCall) : Prop :=
  x.number = y.number ∧ (y.call.producerID = "" → x = y)

/-- A broker with its Raft process, between two halves of its calls of `Produce`. -/
structure ProduceBroker where
  clientAddr : String
  idempotentMgr : IdempotentManager
  raft : Proc
  /-- The call that is about to call `SubmitCommand`. -/
  inFlight : Option RoutedCall := none
  /-- The calls whose `SubmitCommand` succeeded. -/
  submitted : List RoutedCall := []
  answered : List Answer := []

inductive ProduceEvent where
  /-- A critical section of the Raft process; a restart takes the broker with it. -/
  | raft (ev : Event)
  /-- `Produce` up to `CheckAndRecord`, with the answers of `CheckPermission` and
  `getRoute`. -/
  | produce (call : ProduceCall) (allowed : Except String Bool) (route : Except String RouteInfo)
      (order : List (String × ProducerState)) (now : ℕ)
  /-- `SubmitCommand` and the end of `Produce`. -/
  | submit (now : ℕ)
  | cleanupExpired (now : ℕ)

/-- `NewIdempotentManager` as `NewBroker` calls it. -/
def newIdempotentManager : IdempotentManager where
  maxProducers := 10000
  expireAfter := 10 * 60 * 1000000000

namespace ProduceBroker

def boot [GrowthPolicy] (clientAddr selfAddr : String) (peers : List String) (dataDir : String)
    (disk : Disk) : ProduceBroker where
  clientAddr := clientAddr
  idempotentMgr := newIdempotentManager
  raft := Proc.boot selfAddr peers dataDir disk

/-- `call` returns. -/
def answer (s : ProduceBroker) (call : ProduceCall) (result : Except String ProducedMessage) :
    ProduceBroker :=
  { s with answered := s.answered ++ [{ call, result }] }

/-- What `Produce` does with the result of `CheckAndRecord`. -/
def onChecked (s : ProduceBroker) (x : RoutedCall) (now : ℕ) : Except String Bool → ProduceBroker
  | .error e => s.answer x.call (.error e)
  | .ok false => s.answer x.call (.ok (x.message now))
  | .ok true => { s with inFlight := some x }

/-- `Produce` from `CheckAndRecord` to the call of `SubmitCommand`. -/
def checkNumber (s : ProduceBroker) (x : RoutedCall) (order : List (String × ProducerState))
    (now : ℕ) : ProduceBroker :=
  let checked := s.idempotentMgr.checkAndRecord order now x.call.producerID x.call.seqNum
    x.topicPartition
  { s with idempotentMgr := checked.1 }.onChecked x now checked.2

/-- `Produce` up to the call of `SubmitCommand`. -/
def produce (s : ProduceBroker) (call : ProduceCall) (allowed : Except String Bool)
    (route : Except String RouteInfo) (order : List (String × ProducerState)) (now : ℕ) :
    ProduceBroker :=
  match allowed with
  | .error e => s.answer call (.error e)
  | .ok false =>
    s.answer call
      (.error s!"permission denied: user {call.userID} cannot produce to topic {call.topic}")
  | .ok true =>
    match route with
    | .error e => s.answer call (.error e)
    | .ok route =>
      let x : RoutedCall := { call, partition := route.partition }
      if route.leader ≠ s.clientAddr then
        s.answer call (.error s!"not leader, leader is {route.leader}")
      else if call.producerID ≠ "" then s.checkNumber x order now
      else { s with inFlight := some x }

/-- What `Produce` does with the result of `SubmitCommand`. -/
def onSubmitted (s : ProduceBroker) (x : RoutedCall) (now : ℕ) :
    Except String (ℕ × ℕ) → ProduceBroker
  | .error e => s.answer x.call (.error e)
  | .ok _ => { s with submitted := s.submitted ++ [x] }.answer x.call (.ok (x.message now))

variable [GrowthPolicy]

/-- `SubmitCommand` and the end of `Produce`. -/
def submit (s : ProduceBroker) (x : RoutedCall) (now : ℕ) : ProduceBroker :=
  -- the conversion to `int32`
  let res := s.raft.node.submitCommand x.call.topic (x.partition.bmod (2 ^ 32)) x.call.value
  { s with raft := { s.raft with node := res.1 }, inFlight := none }.onSubmitted x now res.2

/-- The Raft process takes a step. A new process starts without producers. -/
def onRaft (s : ProduceBroker) (ev : Event) (p : Proc) : ProduceBroker :=
  if ev.Restarts then
    { s with raft := p, idempotentMgr := newIdempotentManager, inFlight := none }
  else { s with raft := p }

def step (s : ProduceBroker) : ProduceEvent → Option ProduceBroker
  | .raft ev => (s.raft.step ev).map fun x => s.onRaft ev x.1
  | .produce call allowed route order now =>
    if s.raft.alive ∧ s.inFlight = none then some (s.produce call allowed route order now)
    else none
  | .submit now => if s.raft.alive then s.inFlight.map fun x => s.submit x now else none
  | .cleanupExpired now =>
    if s.raft.alive then some { s with idempotentMgr := s.idempotentMgr.cleanupExpired now }
    else none

/-- A call that has recorded its number finds the node leading. -/
def LeadsAtSubmit (s : ProduceBroker) (ev : ProduceEvent) (_ : ProduceBroker) : Prop :=
  match ev with
  | .submit _ => ∀ x ∈ s.inFlight, x.call.producerID ≠ "" → s.raft.node.state = .leader
  | _ => True

instance (s : ProduceBroker) (ev : ProduceEvent) (t : ProduceBroker) :
    Decidable (s.LeadsAtSubmit ev t) := by
  cases ev <;> unfold LeadsAtSubmit <;> infer_instance

end ProduceBroker

theorem state_ne_leader_of_submitCommand [GrowthPolicy] {r : RaftNode} {topic : String}
    {partition : ℤ} {data : List UInt8} {e : String}
    (h : (r.submitCommand topic partition data).2 = .error e) : r.state ≠ .leader := by
  intro hlead
  unfold RaftNode.submitCommand at h
  rw [if_pos hlead] at h
  dsimp only at h
  split at h
  · exact absurd h nofun
  · exact absurd h nofun

/-! ## The invariant -/

/-- Every number on record has been submitted or is about to be, and what was
answered with a message has been submitted. -/
structure RecordInv (s : ProduceBroker) : Prop where
  recorded : ∀ pid state, s.idempotentMgr.producerState.lookup pid = some state →
    ∃ x : RoutedCall,
      x.number = (pid, state.lastSequenceNumber, state.topicPartition) ∧
        (x ∈ s.submitted ∨ x ∈ s.inFlight ∧ x.call.producerID ≠ "")
  answered : ∀ a ∈ s.answered, ∀ msg, a.result = .ok msg →
    ∃ x ∈ s.submitted, x.SameMessage ⟨a.call, msg.partition⟩

namespace RecordInv

open ProduceBroker

variable {s : ProduceBroker}

/-- An answer keeps the invariant if it is an error or its message is submitted. -/
theorem answer (h : RecordInv s) {call : ProduceCall} {result : Except String ProducedMessage}
    (hres : ∀ msg, result = .ok msg →
      ∃ x ∈ s.submitted, x.SameMessage ⟨call, msg.partition⟩) :
    RecordInv (s.answer call result) := by
  refine ⟨h.recorded, fun a ha => ?_⟩
  rcases List.mem_append.mp ha with ha | ha
  · exact h.answered a ha
  · obtain rfl := List.mem_singleton.mp ha
    exact hres

theorem checkNumber (h : RecordInv s) (hidle : s.inFlight = none) (x : RoutedCall)
    (hpid : x.call.producerID ≠ "") (order : List (String × ProducerState)) (now : ℕ) :
    RecordInv (s.checkNumber x order now) := by
  -- with nothing in flight every number on record has been submitted
  have hsub : ∀ pid state, s.idempotentMgr.producerState.lookup pid = some state →
      ∃ y ∈ s.submitted, y.number = (pid, state.lastSequenceNumber, state.topicPartition) := by
    intro pid state hst
    obtain ⟨y, hy, hin | hin⟩ := h.recorded pid state hst
    · exact ⟨y, hin, hy⟩
    · rw [hidle] at hin
      exact absurd hin.1 nofun
  -- the record is as before unless the number was new
  have hkept (hres : (s.idempotentMgr.checkAndRecord order now x.call.producerID x.call.seqNum
      x.topicPartition).2 ≠ .ok true) :
      RecordInv { s with idempotentMgr := (s.idempotentMgr.checkAndRecord order now
        x.call.producerID x.call.seqNum x.topicPartition).1 } := by
    refine ⟨fun pid state hst => ?_, h.answered⟩
    rcases IdempotentManager.lookup_checkAndRecord hst with hst | ⟨_, _, _, hok⟩
    · exact h.recorded pid state hst
    · exact absurd hok hres
  rw [ProduceBroker.checkNumber]
  cases hres : (s.idempotentMgr.checkAndRecord order now x.call.producerID x.call.seqNum
    x.topicPartition).2 with
  | error e => exact (hkept (by rw [hres]; nofun)).answer fun msg hmsg => absurd hmsg nofun
  | ok fresh =>
    cases fresh with
    | false =>
      refine (hkept (by rw [hres]; nofun)).answer fun msg hmsg => ?_
      obtain ⟨state, hst, hseq, htp⟩ := IdempotentManager.checkAndRecord_ok_false hres
      obtain ⟨y, hy, hnum⟩ := hsub _ _ hst
      obtain rfl := Except.ok.inj hmsg
      refine ⟨y, hy, ?_, fun hempty => absurd hempty hpid⟩
      rw [hnum, hseq, htp]
      rfl
    | true =>
      refine ⟨fun pid state hst => ?_, h.answered⟩
      rcases IdempotentManager.lookup_checkAndRecord hst with hst | ⟨rfl, hseq, htp, _⟩
      · obtain ⟨y, hy, hnum⟩ := hsub pid state hst
        exact ⟨y, hnum, Or.inl hy⟩
      · refine ⟨x, ?_, Or.inr ⟨rfl, hpid⟩⟩
        rw [hseq, htp]
        rfl

theorem produce (h : RecordInv s) (hidle : s.inFlight = none) (call : ProduceCall)
    (allowed : Except String Bool) (route : Except String RouteInfo)
    (order : List (String × ProducerState)) (now : ℕ) :
    RecordInv (s.produce call allowed route order now) := by
  have herr : ∀ e, RecordInv (s.answer call (.error e)) :=
    fun e => h.answer fun msg hmsg => absurd hmsg nofun
  unfold ProduceBroker.produce
  split
  · exact herr _
  · exact herr _
  split
  · exact herr _
  rename_i route
  dsimp only
  split_ifs with hleader hpid
  · exact herr _
  · exact h.checkNumber hidle { call, partition := route.partition } hpid order now
  · refine ⟨fun pid state hst => ?_, h.answered⟩
    obtain ⟨y, hy, hin | hin⟩ := h.recorded pid state hst
    · exact ⟨y, hy, Or.inl hin⟩
    · rw [hidle] at hin
      exact absurd hin.1 nofun

variable [GrowthPolicy]

theorem submit (h : RecordInv s) {x : RoutedCall} (hx : s.inFlight = some x)
    (hlead : x.call.producerID ≠ "" → s.raft.node.state = .leader) (now : ℕ) :
    RecordInv (s.submit x now) := by
  rw [ProduceBroker.submit]
  cases hres : (s.raft.node.submitCommand x.call.topic (x.partition.bmod (2 ^ 32))
    x.call.value).2 with
  | error e =>
    have hdropped (p : Proc) : RecordInv { s with raft := p, inFlight := none } := by
      refine ⟨fun pid state hst => ?_, h.answered⟩
      obtain ⟨y, hy, hin | ⟨hin, hpid⟩⟩ := h.recorded pid state hst
      · exact ⟨y, hy, Or.inl hin⟩
      · -- a leader does not refuse the command
        obtain rfl : x = y := Option.some.inj (hx.symm.trans hin)
        exact absurd (hlead hpid) (state_ne_leader_of_submitCommand hres)
    exact (hdropped _).answer fun msg hmsg => absurd hmsg nofun
  | ok r =>
    have hnew : x ∈ s.submitted ++ [x] := List.mem_append_right _ (List.mem_singleton_self x)
    have hsubmitted (p : Proc) :
        RecordInv { s with raft := p, inFlight := none, submitted := s.submitted ++ [x] } := by
      refine ⟨fun pid state hst => ?_, fun a ha msg hmsg => ?_⟩
      -- a record of this call is now one of a submitted call
      · obtain ⟨y, hy, hin | ⟨hin, _⟩⟩ := h.recorded pid state hst
        · exact ⟨y, hy, Or.inl (List.mem_append_left _ hin)⟩
        · obtain rfl : x = y := Option.some.inj (hx.symm.trans hin)
          exact ⟨x, hy, Or.inl hnew⟩
      · obtain ⟨y, hy, hnum⟩ := h.answered a ha msg hmsg
        exact ⟨y, List.mem_append_left _ hy, hnum⟩
    refine (hsubmitted _).answer fun msg hmsg => ?_
    obtain rfl := Except.ok.inj hmsg
    exact ⟨x, hnew, rfl, fun _ => rfl⟩

omit [GrowthPolicy] in
theorem onRaft (h : RecordInv s) (ev : Event) (p : Proc) : RecordInv (s.onRaft ev p) := by
  unfold ProduceBroker.onRaft
  split
  · exact ⟨fun pid state hst => absurd hst nofun, h.answered⟩
  · exact ⟨h.recorded, h.answered⟩

theorem step (h : RecordInv s) {ev : ProduceEvent} {t : ProduceBroker}
    (hg : s.LeadsAtSubmit ev t) (hst : s.step ev = some t) : RecordInv t := by
  cases ev with
  | raft ev =>
    obtain ⟨x, _, rfl⟩ := Option.map_eq_some_iff.mp hst
    exact h.onRaft ev x.1
  | produce call allowed route order now =>
    rw [ProduceBroker.step] at hst
    split at hst
    · cases hst
      rename_i hidle
      exact h.produce hidle.2 call allowed route order now
    · exact absurd hst nofun
  | submit now =>
    rw [ProduceBroker.step] at hst
    split at hst
    · obtain ⟨x, hx, rfl⟩ := Option.map_eq_some_iff.mp hst
      exact h.submit hx (hg x hx) now
    · exact absurd hst nofun
  | cleanupExpired now =>
    rw [ProduceBroker.step] at hst
    split at hst
    · cases hst
      refine ⟨fun pid state hst => ?_, h.answered⟩
      exact h.recorded pid state (IdempotentManager.lookup_cleanupExpired hst)
    · exact absurd hst nofun

end RecordInv

section

variable [GrowthPolicy]

/-- **Nothing is lost**: if every call that has recorded its number finds the Raft
node leading, then for every call of `Produce` that returned a message a
`SubmitCommand` for that message has succeeded. -/
theorem produce_submitted {clientAddr selfAddr : String} {peers : List String} {dataDir : String}
    {disk : Disk} {s : ProduceBroker}
    (hrun : Run ProduceBroker.step ProduceBroker.LeadsAtSubmit
      (ProduceBroker.boot clientAddr selfAddr peers dataDir disk) s)
    {a : Answer} (ha : a ∈ s.answered) {msg : ProducedMessage} (hmsg : a.result = .ok msg) :
    ∃ x ∈ s.submitted, x.SameMessage ⟨a.call, msg.partition⟩ := by
  have hinv : RecordInv s := by
    refine hrun.invariant (P := RecordInv) ⟨fun pid state hst => ?_, fun a ha => ?_⟩ ?_
    · exact absurd hst nofun
    · exact absurd ha List.not_mem_nil
    · intro t l u h hg hst
      exact h.step hg hst
  exact hinv.answered a ha msg hmsg

end

section traces

open scoped GrowthPolicy

/-- A numbered call of a producer that may produce to the topic. -/
def numberedCall : ProduceCall where
  topic := "t"
  key := "k"
  value := [7]
  userID := "u"
  producerID := "p"
  seqNum := 1

/-- `Produce` records the number and calls `SubmitCommand`. -/
def produceNumbered (now : ℕ) : List ProduceEvent :=
  [.produce numberedCall (.ok true) (.ok { partition := 0, leader := "a:9092" }) [] now,
    .submit now]

/-- The call again, answered with a message without reaching `SubmitCommand`. -/
def retryNumbered (now : ℕ) : ProduceEvent :=
  .produce numberedCall (.ok true) (.ok { partition := 0, leader := "a:9092" })
    [("p", { lastSequenceNumber := 1, lastActiveTime := 1, topicPartition := "t-0" })] now

/-- What `numberedCall` returns when it succeeds. -/
def numberedMessage (now : ℕ) : ProducedMessage where
  topic := "t"
  partition := 0
  key := "k"
  value := [7]
  timestamp := now

/-- A leader submits the call; its repetition is answered with a message. -/
theorem produce_submitted_retry :
    ∃ (s : ProduceBroker) (a : Answer), a ∈ s.answered ∧ a.call = numberedCall ∧
      a.result = .ok (numberedMessage 2) ∧
      ∃ x ∈ s.submitted, x.SameMessage ⟨a.call, 0⟩ := by
  obtain ⟨s, hrun, a, ha, hcall, hres⟩ : ∃ s, Run ProduceBroker.step ProduceBroker.LeadsAtSubmit
      (ProduceBroker.boot "a:9092" "a" ["a", "b", "c"] "data" {}) s ∧
      ∃ a ∈ s.answered, a.call = numberedCall ∧ a.result = .ok (numberedMessage 2) :=
    exists_run_of_execWith
      ([.raft .electionTimeout, .raft (.voteReply 0 "b" { term := 1, voteGranted := true })] ++
        produceNumbered 1 ++ [retryNumbered 2])
      (by decide +kernel)
  exact ⟨s, a, ha, hcall, hres, produce_submitted hrun ha hres⟩

/-- A node that does not lead refuses the command after the number was recorded.
The producer tries again and is told that the message was accepted; nothing was
submitted. -/
theorem retry_after_error_not_submitted :
    ∃ s, Run ProduceBroker.step (fun _ _ _ => True)
        (ProduceBroker.boot "a:9092" "a" ["a", "b", "c"] "data" {}) s ∧
      s.answered.map (fun a => (a.call, a.result)) =
        [(numberedCall, .error "not leader"), (numberedCall, .ok (numberedMessage 2))] ∧
      s.submitted = [] :=
  exists_run_of_execWith (produceNumbered 1 ++ [retryNumbered 2]) (by decide +kernel)

end traces

end DistributedMQ.Broker
