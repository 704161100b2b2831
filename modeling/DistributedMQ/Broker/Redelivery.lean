import DistributedMQ.Broker.Partitions
import DistributedMQ.Lib.BigEndian
import DistributedMQ.Raft.LogSteps

/-!
# Retries, dead letters and delayed messages (`broker.go` lines 211–300)

A consumer that cannot handle a message sends a negative acknowledgement with the message in
it: the broker queues it for another try or, after the last one, submits it to the topic
`<topic>_DLQ`. Messages that come from the time wheel are submitted when they are due.

Both handlers look for the topic in the table of partitions first. A partition stands there
under `<topic>-<partition>` (`partitionKey`).

- `Keyed`: in every table that `applyBatch` makes, partitions stand under their own key.
- `handleTCPAck_redelivered_iff`: a negative acknowledgement for a partition is followed iff
  there is a partition, of any topic, whose key is the topic.
- `dispatchDelayed_submitted_iff`: the same for delayed messages.
-/

namespace DistributedMQ.Broker

open Raft Naming BigEndian

/-! ## The table of partitions -/

namespace Store

/-- The partition has been created. -/
def Created (b : Store) (topic : ByteString) (partition : ℤ) : Prop :=
  ∃ tp, b.topics.lookup (partitionKey topic partition) = some tp ∧
    tp.topic = topic ∧ tp.partition = partition

instance (b : Store) (topic : ByteString) (partition : ℤ) : Decidable (b.Created topic partition) :=
  inferInstanceAs (Decidable (∃ tp ∈ b.topics.lookup (partitionKey topic partition), _))

/-- Partitions stand under their own key. Their numbers are `int32`s, as those of log entries
are. -/
def Keyed (b : Store) : Prop :=
  ∀ key tp, b.topics.lookup key = some tp →
    key = partitionKey tp.topic tp.partition ∧ Fits 32 tp.partition

/-- A table that `applyBatch` has made, from nothing. -/
def Filled [Glob] (b : Store) : Prop :=
  ∃ (b₀ : Store) (as : List Applied), b₀.topics = ∅ ∧ (∀ a ∈ as, Fits 32 a.entry.partition) ∧
    b = b₀.applyAll as

variable [Glob] {b : Store} {topic : ByteString} {partition : ℤ}

omit [Glob] in
theorem keyed_of_new (hnew : b.topics = ∅) : b.Keyed := by
  intro key tp hlookup
  rw [hnew] at hlookup
  cases hlookup

/-- An entry is put under the key of the partition it goes to, found or new. -/
theorem Keyed.applyEntry (h : b.Keyed) {a : Applied} (ha : Fits 32 a.entry.partition) :
    (b.applyEntry a).Keyed := by
  intro key tp hlookup
  by_cases hkey : key = partitionKey a.entry.topic a.entry.partition
  · subst hkey
    obtain rfl := Option.some.inj ((lookup_applyEntry b a).symm.trans hlookup)
    -- a partition that is found keeps its topic and number, a new one has those of the entry
    rw [TopicPartition.apply, getOrCreateTopicPartition]
    cases hfound : b.topics.lookup (partitionKey a.entry.topic a.entry.partition) with
    | none => exact ⟨rfl, ha⟩
    | some tp => exact h _ tp hfound
  · exact h key tp ((lookup_applyEntry_ne hkey).symm.trans hlookup)

/-- Every partition that a list of entries opens stands under its own key. -/
theorem Keyed.applyAll (h : b.Keyed) {as : List Applied}
    (has : ∀ a ∈ as, Fits 32 a.entry.partition) : (b.applyAll as).Keyed := by
  induction as generalizing b with
  | nil => exact h
  | cons a as ih =>
    obtain ⟨ha, has⟩ := List.forall_mem_cons.mp has
    exact ih (h.applyEntry ha) has

theorem Filled.keyed (h : b.Filled) : b.Keyed := by
  obtain ⟨b₀, as, hnew, has, rfl⟩ := h
  exact (keyed_of_new hnew).applyAll has

/-- **A bare topic in the table** is the key of some partition. -/
theorem Filled.lookup_ne_none_iff (h : b.Filled) :
    b.topics.lookup topic ≠ none ↔
      ∃ topic' partition', b.Created topic' partition' ∧ topic = partitionKey topic' partition' := by
  constructor
  · intro hne
    obtain ⟨tp, htp⟩ := Option.ne_none_iff_exists'.mp hne
    obtain ⟨hkey, _⟩ := h.keyed topic tp htp
    exact ⟨tp.topic, tp.partition, ⟨tp, hkey ▸ htp, rfl, rfl⟩, hkey⟩
  · rintro ⟨topic', partition', ⟨tp, htp, _, _⟩, rfl⟩
    rw [htp]
    exact Option.some_ne_none tp

theorem Filled.fits (h : b.Filled) (hcreated : b.Created topic partition) :
    Fits 32 partition := by
  obtain ⟨tp, htp, _, rfl⟩ := hcreated
  exact (h.keyed _ tp htp).2

end Store

/-! ## The handlers -/

structure RetryMessage where
  topic : ByteString
  partition : ℤ
  offset : ℤ
  data : List UInt8
  retryCount : ℕ
  nextRetryAt : ℕ
deriving DecidableEq, Repr

structure DelayedMessage where
  topic : ByteString
  partition : ℤ
  data : List UInt8
  deliveryAt : ℕ
deriving DecidableEq, Repr

/-- The answers to an acknowledgement. -/
inductive AckStatus where
  | success
  | error
  | dlq
  | retried
deriving DecidableEq, Repr

/-- The constants `RespSuccess`, `RespError`, `RespDLQ` and `RespRetried`. -/
def AckStatus.byte : AckStatus → UInt8
  | .success => 0x00
  | .error => 0xFF
  | .dlq => 0x02
  | .retried => 0x03

/-- What the processor of delayed messages logs. -/
inductive DelayedOutcome where
  | notFound
  | failed (err : String)
  | dispatched
deriving DecidableEq, Repr

def maxRetryCount : ℕ := 3

/-- `topic + "_DLQ"`. -/
def dlqTopic (topic : ByteString) : ByteString := topic ++ "_DLQ".toUTF8.toList

/-- The count in a negative acknowledgement, incremented. -/
def retryCount (data : List UInt8) : ℕ :=
  (if 10 ≤ data.length then (data.getD 9 0).toNat else 0) + 1

/-- The parts of a broker that redelivery uses. -/
structure RedeliveryBroker where
  store : Store
  node : RaftNode
  retryQueue : List RetryMessage := []

namespace RedeliveryBroker

section

variable [GrowthPolicy]

def handleTCPAck (b : RedeliveryBroker) (now : ℕ) (topic : ByteString) (partition : ℤ)
    (data : List UInt8) : RedeliveryBroker × AckStatus :=
  if data.length < 9 then (b, .error)
  else if data.getD 8 0 = 0 then (b, .success)
  else if b.store.topics.lookup topic = none then (b, .error)
  else if maxRetryCount ≤ retryCount data then
    if data.length < 11 then (b, .error)
    else
      match b.node.submitCommand (text (dlqTopic topic)) partition (data.drop 10) with
      | (node, .error _) => ({ b with node }, .error)
      | (node, .ok _) => ({ b with node }, .dlq)
  else if data.length < 11 then (b, .error)
  else
    ({ b with
       retryQueue := b.retryQueue ++
         [{ topic, partition
            offset := toSigned 64 (decode (data.take 8))
            data := data.drop 10
            retryCount := retryCount data
            nextRetryAt := now + 5 * 10 ^ 9 }] }, .retried)

/-- What `startDelayedMessageProcessor` does with a message. -/
def dispatchDelayed (b : RedeliveryBroker) (msg : DelayedMessage) :
    RedeliveryBroker × DelayedOutcome :=
  if b.store.topics.lookup msg.topic = none then (b, .notFound)
  else
    match b.node.submitCommand (text msg.topic) (toSigned 32 (toUnsigned 32 msg.partition))
      msg.data with
    | (node, .error err) => ({ b with node }, .failed err)
    | (node, .ok _) => ({ b with node }, .dispatched)

/-- The command is in the log. -/
def Submitted (r r' : RaftNode) (topic : ByteString) (partition : ℤ) (data : List UInt8) : Prop :=
  r'.log = r.log.append (r.commandEntry (text topic) partition data)

/-- The payload of a negative acknowledgement is submitted to the dead letters if this was the
last try, and queued if not. -/
def Redelivered (b : RedeliveryBroker) (topic : ByteString) (partition : ℤ) (data : List UInt8)
    (b' : RedeliveryBroker) (status : AckStatus) : Prop :=
  if maxRetryCount ≤ retryCount data then
    status = .dlq ∧ Submitted b.node b'.node (dlqTopic topic) partition (data.drop 10)
  else
    status = .retried ∧ ∃ msg, b'.retryQueue = b.retryQueue ++ [msg] ∧
      msg.topic = topic ∧ msg.partition = partition ∧ msg.data = data.drop 10

variable {b : RedeliveryBroker} {topic : ByteString} {partition : ℤ} {data : List UInt8} {now : ℕ}

/-- **Submit.** A node that leads accepts a command. -/
theorem submitCommand_ok {r : RaftNode} (hleader : r.state = .leader) (topic : String)
    (partition : ℤ) (data : List UInt8) :
    ∃ r' res, r.submitCommand topic partition data = (r', .ok res) := by
  unfold RaftNode.submitCommand
  rw [if_pos hleader]
  dsimp only
  split
  · exact ⟨_, _, rfl⟩
  · exact ⟨_, _, rfl⟩

/-- A negative acknowledgement with a payload, on a node that leads. -/
theorem handleTCPAck_redelivered (hfound : b.store.topics.lookup topic ≠ none)
    (hleader : b.node.state = .leader) (hstatus : data.getD 8 0 ≠ 0) (hlen : 11 ≤ data.length) :
    b.Redelivered topic partition data (b.handleTCPAck now topic partition data).1
      (b.handleTCPAck now topic partition data).2 := by
  rw [handleTCPAck, if_neg (by omega), if_neg hstatus, if_neg hfound, Redelivered]
  split
  · rw [if_neg (by omega)]
    obtain ⟨node, res, hsubmit⟩ :=
      submitCommand_ok hleader (text (dlqTopic topic)) partition (data.drop 10)
    have hlog := (RaftNode.submitCommand_leader hleader (text (dlqTopic topic)) partition
      (data.drop 10)).1
    rw [hsubmit] at hlog ⊢
    exact ⟨rfl, hlog⟩
  · rw [if_neg (by omega)]
    exact ⟨rfl, _, rfl, rfl, rfl, rfl⟩

/-- A topic that is not in the table. -/
theorem handleTCPAck_not_found (hfound : b.store.topics.lookup topic = none)
    (hstatus : data.getD 8 0 ≠ 0) :
    b.handleTCPAck now topic partition data = (b, .error) := by
  rw [handleTCPAck, if_neg hstatus, if_pos hfound, ite_self]

/-- **Negative acknowledgements.** On a node that leads the payload is queued or dead-lettered
iff the bare topic is the key of some partition. -/
theorem handleTCPAck_redelivered_iff [Glob] (hfilled : b.store.Filled)
    (hleader : b.node.state = .leader) (hstatus : data.getD 8 0 ≠ 0) (hlen : 11 ≤ data.length) :
    b.Redelivered topic partition data (b.handleTCPAck now topic partition data).1
        (b.handleTCPAck now topic partition data).2 ↔
      ∃ topic' partition', b.store.Created topic' partition' ∧
        topic = partitionKey topic' partition' := by
  rw [← hfilled.lookup_ne_none_iff]
  constructor
  · intro h hnone
    rw [handleTCPAck_not_found hnone hstatus, Redelivered] at h
    split at h <;> cases h.1
  · exact fun hfound => handleTCPAck_redelivered hfound hleader hstatus hlen

end

section

open scoped GrowthPolicy

local instance : Glob := literalGlob

/-- A broker that leads two others, with these partitions. -/
def leading (as : List Applied) : RedeliveryBroker where
  store := ({ dataDir := [100], disk := fun _ => ∅ } : Store).applyAll as
  node := { newRaftNode "a" ["b", "c"] "d" {} with state := .leader }

theorem filled_leading {as : List Applied} (has : ∀ a ∈ as, Fits 32 a.entry.partition) :
    (leading as).store.Filled :=
  ⟨_, as, rfl, has, rfl⟩

/-- The partitions 0 of `t` and 1 of `t-0`. -/
def twoPartitions : RedeliveryBroker :=
  leading [⟨⟨[116], 0, [7]⟩, 0, 0⟩, ⟨⟨[116, 45, 48], 1, [8]⟩, 0, 0⟩]

/-- Partition 0 of `t`. -/
def onePartition : RedeliveryBroker := leading [⟨⟨[116], 0, [7]⟩, 0, 0⟩]

theorem handleTCPAck_redelivered_iff_two :
    twoPartitions.store.Created [116, 45, 48] 1 ∧
      twoPartitions.Redelivered [116, 45, 48] 1 [0, 0, 0, 0, 0, 0, 0, 0, 1, 2, 8]
        (twoPartitions.handleTCPAck 0 [116, 45, 48] 1 [0, 0, 0, 0, 0, 0, 0, 0, 1, 2, 8]).1
        (twoPartitions.handleTCPAck 0 [116, 45, 48] 1 [0, 0, 0, 0, 0, 0, 0, 0, 1, 2, 8]).2 := by
  refine ⟨by decide +kernel, ?_⟩
  exact (handleTCPAck_redelivered_iff (filled_leading (by decide)) rfl (by decide)
    (by decide)).mpr ⟨[116], 0, by decide +kernel, by decide +kernel⟩

/-- The only partition is 0 of `t`, and a message of it comes back: nothing happens. -/
theorem nack_dropped :
    onePartition.store.Filled ∧ onePartition.store.Created [116] 0 ∧
      onePartition.node.state = .leader ∧
      onePartition.handleTCPAck 0 [116] 0 [0, 0, 0, 0, 0, 0, 0, 0, 1, 0, 7] =
        (onePartition, .error) :=
  ⟨filled_leading (by decide), by decide +kernel, rfl,
    handleTCPAck_not_found (by decide +kernel) (by decide)⟩

end

/-- **Delayed messages.** A message whose partition exists is submitted for it iff the bare
topic is the key of some partition. -/
theorem dispatchDelayed_submitted_iff [GrowthPolicy] [Glob] {b : RedeliveryBroker}
    (hfilled : b.store.Filled) {msg : DelayedMessage}
    (hcreated : b.store.Created msg.topic msg.partition) :
    ((b.dispatchDelayed msg).2 ≠ .notFound ∧
      (b.node.state = .leader → (b.dispatchDelayed msg).2 = .dispatched ∧
        Submitted b.node (b.dispatchDelayed msg).1.node msg.topic msg.partition msg.data)) ↔
      ∃ topic' partition', b.store.Created topic' partition' ∧
        msg.topic = partitionKey topic' partition' := by
  rw [← hfilled.lookup_ne_none_iff]
  constructor
  · intro h hnone
    rw [dispatchDelayed, if_pos hnone] at h
    exact h.1 rfl
  · intro hfound
    rw [dispatchDelayed, if_neg hfound, toSigned_toUnsigned (by decide) (hfilled.fits hcreated)]
    constructor
    · split <;> simp
    · intro hleader
      obtain ⟨node, res, hsubmit⟩ :=
        submitCommand_ok hleader (text msg.topic) msg.partition msg.data
      have hlog := (RaftNode.submitCommand_leader hleader (text msg.topic) msg.partition
        msg.data).1
      rw [hsubmit] at hlog ⊢
      exact ⟨rfl, hlog⟩

section

open scoped GrowthPolicy

local instance : Glob := literalGlob

theorem dispatchDelayed_submitted_iff_two :
    (twoPartitions.dispatchDelayed ⟨[116, 45, 48], 1, [9], 0⟩).2 = .dispatched := by
  have hcreated : twoPartitions.store.Created
      (DelayedMessage.mk [116, 45, 48] 1 [9] 0).topic
      (DelayedMessage.mk [116, 45, 48] 1 [9] 0).partition := by decide +kernel
  exact (((dispatchDelayed_submitted_iff (filled_leading (by decide)) hcreated).mpr
    ⟨[116], 0, by decide +kernel, by decide +kernel⟩).2 rfl).1

/-- The only partition is 0 of `t`, and a delayed message for it is due: it is dropped. -/
theorem delayed_dropped :
    onePartition.store.Filled ∧ onePartition.store.Created [116] 0 ∧
      onePartition.node.state = .leader ∧
      onePartition.dispatchDelayed ⟨[116], 0, [9], 0⟩ = (onePartition, .notFound) :=
  ⟨filled_leading (by decide), by decide +kernel, rfl,
    if_pos (by decide +kernel : onePartition.store.topics.lookup [116] = none)⟩

end

end RedeliveryBroker

end DistributedMQ.Broker
