import DistributedMQ.Broker.Redelivery
import DistributedMQ.Lib.Conservation
import DistributedMQ.Lib.Machine

/-!
# The retry queue (`broker.go` lines 171–209 and 236–300)

A negative acknowledgement that is answered `RespRetried` leaves a message in `retryQueue`. Once a
second `processRetryQueue` goes through the queue: what is due is submitted to `<topic>_RETRY`,
and what is not due, or could not be submitted, is put into the queue that takes its place.

The clock readings and the results of `SubmitCommand` are inputs, and between two calls the rest
of the broker may change in any way. The queue holds pointers, so that the loop is written for
anything that stands for a message; a run numbers the acknowledgements.

- `retryLoop_perm`, `retryLoop_sublist`, `retryLoop_due`: what one pass does to the queue.
- `RetryInv`: at every moment each acknowledgement is in the queue or has been submitted, once.
- `retry_conserved`: what this means for the messages.
-/

namespace DistributedMQ.Broker

open Raft Naming BigEndian Machine Conservation

/-- `msg.Topic + "_RETRY"`. -/
def retryTopic (topic : ByteString) : ByteString := topic ++ "_RETRY".toUTF8.toList

/-- A successful call of `SubmitCommand`, and the clock reading of the pass it was made in. -/
structure Submission where
  topic : ByteString
  partition : ℤ
  data : List UInt8
  time : ℕ
deriving DecidableEq, Repr

/-- The call for a message; the partition is converted to `int32`. -/
def RetryMessage.submission (msg : RetryMessage) (now : ℕ) : Submission where
  topic := retryTopic msg.topic
  partition := toSigned 32 (toUnsigned 32 msg.partition)
  data := msg.data
  time := now

section pass

variable {α : Type}

/-- The loop of `processRetryQueue`: the new queue, and what has been submitted. `accepts i` says
whether the call for message `i` of the queue, if it is made, succeeds. -/
def retryLoop (msg : α → RetryMessage) (now : ℕ) : (ℕ → Bool) → List α → List α × List α
  | _, [] => ([], [])
  | accepts, x :: queue =>
    let (newQueue, submitted) := retryLoop msg now (fun i => accepts (i + 1)) queue
    if now < (msg x).nextRetryAt then (x :: newQueue, submitted)
    else if accepts 0 then (newQueue, x :: submitted)
    else (x :: newQueue, submitted)

variable {msg : α → RetryMessage} {now : ℕ} {accepts : ℕ → Bool} {queue : List α}

/-- **No loss, no duplicates.** -/
theorem retryLoop_perm (msg : α → RetryMessage) (now : ℕ) (accepts : ℕ → Bool) (queue : List α) :
    ((retryLoop msg now accepts queue).1 ++ (retryLoop msg now accepts queue).2).Perm queue := by
  induction queue generalizing accepts with
  | nil => exact List.Perm.refl []
  | cons x queue ih =>
    rw [retryLoop]
    dsimp only
    split
    · exact (ih _).cons x
    split
    · exact List.perm_middle.trans ((ih _).cons x)
    · exact (ih _).cons x

/-- What stays in the queue keeps its order. -/
theorem retryLoop_sublist (msg : α → RetryMessage) (now : ℕ) (accepts : ℕ → Bool)
    (queue : List α) : (retryLoop msg now accepts queue).1.Sublist queue := by
  induction queue generalizing accepts with
  | nil => exact List.Sublist.refl []
  | cons x queue ih =>
    rw [retryLoop]
    dsimp only
    split
    · exact (ih _).cons_cons x
    split
    · exact (ih _).cons x
    · exact (ih _).cons_cons x

/-- Nothing is submitted before its time. -/
theorem retryLoop_due {x : α} (h : x ∈ (retryLoop msg now accepts queue).2) :
    (msg x).nextRetryAt ≤ now := by
  induction queue generalizing accepts with
  | nil => cases h
  | cons y queue ih =>
    rw [retryLoop] at h
    dsimp only at h
    split at h
    · exact ih h
    rename_i hdue
    split at h
    · rcases List.mem_cons.mp h with rfl | h
      · exact not_lt.mp hdue
      · exact ih h
    · exact ih h

/-- The pass looks at the messages only. -/
theorem retryLoop_map (msg : α → RetryMessage) (now : ℕ) (accepts : ℕ → Bool) (queue : List α) :
    retryLoop id now accepts (queue.map msg) =
      ((retryLoop msg now accepts queue).1.map msg,
        (retryLoop msg now accepts queue).2.map msg) := by
  induction queue generalizing accepts with
  | nil => rfl
  | cons x queue ih =>
    rw [List.map_cons, retryLoop, retryLoop, ih]
    dsimp only [id]
    split
    · rfl
    split
    · rfl
    · rfl

end pass

/-- `processRetryQueue`. -/
def RedeliveryBroker.processRetryQueue (b : RedeliveryBroker) (now : ℕ) (accepts : ℕ → Bool) :
    RedeliveryBroker × List Submission :=
  let (newQueue, submitted) := retryLoop id now accepts b.retryQueue
  ({ b with retryQueue := newQueue }, submitted.map fun msg => msg.submission now)

/-! ## Runs -/

/-- A negative acknowledgement and the clock reading taken for it. -/
structure Nack where
  topic : ByteString
  partition : ℤ
  data : List UInt8
  time : ℕ
deriving DecidableEq, Repr

/-- The message that `handleTCPAck` puts into the queue. -/
def Nack.message (nack : Nack) : RetryMessage where
  topic := nack.topic
  partition := nack.partition
  offset := toSigned 64 (decode (nack.data.take 8))
  data := nack.data.drop 10
  retryCount := retryCount nack.data
  nextRetryAt := nack.time + 5 * 10 ^ 9

/-- A broker, and what has become of the acknowledgements. -/
structure RetryProc where
  broker : RedeliveryBroker
  /-- Those that were answered `RespRetried`. -/
  nacks : List Nack := []
  /-- The numbers of those in the queue. -/
  waiting : List ℕ := []
  /-- The successful calls of `SubmitCommand`, with the number of the acknowledgement. -/
  submitted : List (ℕ × Submission) := []

inductive RetryEvent where
  | handleTCPAck (now : ℕ) (topic : ByteString) (partition : ℤ) (data : List UInt8)
  | processRetryQueue (now : ℕ) (accepts : ℕ → Bool)
  /-- Something else happens to the broker. -/
  | other (store : Store) (node : RaftNode)

namespace RetryProc

/-- The message of an acknowledgement. -/
def message (s : RetryProc) (k : ℕ) : RetryMessage :=
  (s.nacks.getD k { topic := [], partition := 0, data := [], time := 0 }).message

variable [GrowthPolicy]

def step (s : RetryProc) : RetryEvent → Option RetryProc
  | .handleTCPAck now topic partition data =>
    -- the partition of a request is an `int32`
    if Fits 32 partition then
      match s.broker.handleTCPAck now topic partition data with
      | (broker, .retried) =>
        some
          { s with
            broker
            nacks := s.nacks ++ [{ topic, partition, data, time := now }]
            waiting := s.waiting ++ [s.nacks.length] }
      | (broker, _) => some { s with broker }
    else none
  | .processRetryQueue now accepts =>
    let (waiting, submitted) := retryLoop s.message now accepts s.waiting
    some
      { s with
        broker := (s.broker.processRetryQueue now accepts).1
        waiting
        submitted := s.submitted ++
          submitted.zip (s.broker.processRetryQueue now accepts).2 }
  | .other store node => some { s with broker := { s.broker with store, node } }

end RetryProc

/-- The submission passes on what the acknowledgement was for, and not before it is due. -/
structure Nack.Answered (nack : Nack) (sub : Submission) : Prop where
  topic : sub.topic = retryTopic nack.topic
  partition : sub.partition = nack.partition
  data : sub.data = nack.data.drop 10
  due : nack.time + 5 * 10 ^ 9 ≤ sub.time

/-- Every negative acknowledgement waits or has been submitted, once, and the queue is in the
order of arrival. -/
structure RetryInv (s : RetryProc) : Prop where
  queue : s.broker.retryQueue = s.waiting.map s.message
  order : s.waiting.Pairwise (· < ·)
  /-- Each acknowledgement is in one of the two places. -/
  conserved : Conserved s.nacks.length (s.waiting ++ s.submitted.map Prod.fst)
  fits : ∀ nack ∈ s.nacks, Fits 32 nack.partition
  answered : ∀ x ∈ s.submitted, ∃ nack, s.nacks[x.1]? = some nack ∧ nack.Answered x.2

namespace RetryProc

variable {s t : RetryProc}

theorem message_of_nacks {k : ℕ} {nack : Nack} (h : s.nacks[k]? = some nack) :
    s.message k = nack.message := by
  rw [message, List.getD_eq_getElem?_getD, h, Option.getD_some]

theorem message_congr (hnacks : t.nacks = s.nacks) : t.message = s.message := by
  funext k
  rw [message, message, hnacks]

/-- The message of an acknowledgement stays what it is. -/
theorem message_of_lt {k : ℕ} (hk : k < s.nacks.length) {rest : List Nack}
    (hnacks : t.nacks = s.nacks ++ rest) : t.message k = s.message k := by
  have hfound : s.nacks[k]? = some s.nacks[k] := List.getElem?_eq_getElem hk
  have hkept : t.nacks[k]? = some s.nacks[k] := by
    rw [hnacks, List.getElem?_append_left hk, hfound]
  rw [message_of_nacks hfound, message_of_nacks hkept]

end RetryProc

namespace RetryInv

variable {s t : RetryProc}

theorem init {b : RedeliveryBroker} (hb : b.retryQueue = []) : RetryInv { broker := b } where
  queue := hb
  order := List.Pairwise.nil
  conserved := conserved_nil
  fits := fun _ h => absurd h List.not_mem_nil
  answered := fun _ h => absurd h List.not_mem_nil

theorem lt_of_waiting (h : RetryInv s) {k : ℕ} (hk : k ∈ s.waiting) : k < s.nacks.length :=
  h.conserved.mem_iff.mp (List.mem_append_left _ hk)

/-- The pass of the broker is the pass over the numbers. -/
theorem processRetryQueue_eq (h : RetryInv s) (now : ℕ) (accepts : ℕ → Bool) :
    (s.broker.processRetryQueue now accepts).1.retryQueue =
        (retryLoop s.message now accepts s.waiting).1.map s.message ∧
      (s.broker.processRetryQueue now accepts).2 =
        (retryLoop s.message now accepts s.waiting).2.map fun k =>
          (s.message k).submission now := by
  rw [RedeliveryBroker.processRetryQueue, h.queue, retryLoop_map]
  exact ⟨rfl, List.map_map⟩

/-- A message that is due is passed on as it came. -/
theorem answered_submission (h : RetryInv s) {k now : ℕ} (hk : k ∈ s.waiting)
    (hdue : (s.message k).nextRetryAt ≤ now) :
    ∃ nack, s.nacks[k]? = some nack ∧ nack.Answered ((s.message k).submission now) := by
  have hlt := h.lt_of_waiting hk
  have hfound : s.nacks[k]? = some s.nacks[k] := List.getElem?_eq_getElem hlt
  refine ⟨s.nacks[k], hfound, ?_⟩
  rw [RetryProc.message_of_nacks hfound] at hdue ⊢
  have hfits : Fits 32 (s.nacks[k]).partition := h.fits _ (List.getElem_mem hlt)
  refine ⟨rfl, ?_, rfl, hdue⟩
  dsimp only [RetryMessage.submission, Nack.message]
  exact toSigned_toUnsigned (by decide) hfits

/-- An acknowledgement comes in. -/
theorem enqueue (h : RetryInv s) {nack : Nack} (hfits : Fits 32 nack.partition)
    (hnacks : t.nacks = s.nacks ++ [nack]) (hwaiting : t.waiting = s.waiting ++ [s.nacks.length])
    (hsubmitted : t.submitted = s.submitted)
    (hqueue : t.broker.retryQueue = s.broker.retryQueue ++ [nack.message]) : RetryInv t where
  queue := by
    -- the numbers of those that wait mean the same messages
    have hold : s.waiting.map t.message = s.waiting.map s.message :=
      List.map_congr_left fun k hk => RetryProc.message_of_lt (h.lt_of_waiting hk) hnacks
    have hnew : t.message s.nacks.length = nack.message :=
      RetryProc.message_of_nacks (by rw [hnacks, List.getElem?_concat_length])
    rw [hqueue, hwaiting, List.map_append, hold, List.map_singleton, hnew, h.queue]
  order := by
    rw [hwaiting, List.pairwise_append]
    refine ⟨h.order, List.pairwise_singleton _ _, ?_⟩
    intro k hk last hlast
    obtain rfl := List.mem_singleton.mp hlast
    exact h.lt_of_waiting hk
  conserved := by
    rw [hwaiting, hnacks, hsubmitted, List.length_append, List.append_assoc]
    exact h.conserved.add List.perm_middle
  fits := by
    intro x hx
    rw [hnacks] at hx
    rcases List.mem_append.mp hx with hx | hx
    · exact h.fits x hx
    · obtain rfl := List.mem_singleton.mp hx
      exact hfits
  answered := by
    intro x hx
    rw [hsubmitted] at hx
    obtain ⟨old, hfound, hanswered⟩ := h.answered x hx
    obtain ⟨hlt, -⟩ := List.getElem?_eq_some_iff.mp hfound
    refine ⟨old, ?_, hanswered⟩
    rw [hnacks, List.getElem?_append_left hlt]
    exact hfound

/-- Nothing happens to the acknowledgements. -/
theorem unchanged (h : RetryInv s) (hnacks : t.nacks = s.nacks) (hwaiting : t.waiting = s.waiting)
    (hsubmitted : t.submitted = s.submitted)
    (hqueue : t.broker.retryQueue = s.broker.retryQueue) : RetryInv t := by
  obtain ⟨hq, horder, hconserved, hfits, hanswered⟩ := h
  refine ⟨?_, ?_, ?_, ?_, ?_⟩
  · rw [hqueue, hwaiting, RetryProc.message_congr hnacks, hq]
  · rwa [hwaiting]
  · rwa [hnacks, hwaiting, hsubmitted]
  · rwa [hnacks]
  · rwa [hnacks, hsubmitted]

/-- `processRetryQueue` goes through the queue. -/
theorem pass (h : RetryInv s) {now : ℕ} {accepts : ℕ → Bool} (hnacks : t.nacks = s.nacks)
    (hwaiting : t.waiting = (retryLoop s.message now accepts s.waiting).1)
    (hsubmitted : t.submitted = s.submitted ++
      (retryLoop s.message now accepts s.waiting).2.zip (s.broker.processRetryQueue now accepts).2)
    (hqueue : t.broker.retryQueue = (s.broker.processRetryQueue now accepts).1.retryQueue) :
    RetryInv t := by
  obtain ⟨hnew, hsubs⟩ := h.processRetryQueue_eq now accepts
  have hperm := retryLoop_perm s.message now accepts s.waiting
  have hsublist := retryLoop_sublist s.message now accepts s.waiting
  have hdue : ∀ k ∈ (retryLoop s.message now accepts s.waiting).2,
      (s.message k).nextRetryAt ≤ now := fun k => retryLoop_due
  rw [hsubs] at hsubmitted
  -- from here on the two lists of the pass are only what these lemmas say about them
  generalize (retryLoop s.message now accepts s.waiting).1 = kept at *
  generalize (retryLoop s.message now accepts s.waiting).2 = sent at *
  refine ⟨?_, ?_, ?_, ?_, ?_⟩
  · rw [hqueue, hnew, hwaiting, RetryProc.message_congr hnacks]
  · rw [hwaiting]
    exact h.order.sublist hsublist
  · have hnumbers : t.submitted.map Prod.fst = s.submitted.map Prod.fst ++ sent := by
      rw [hsubmitted, List.map_append, List.map_fst_zip (by rw [List.length_map])]
    rw [hnacks, hwaiting, hnumbers]
    exact h.conserved.move hperm
  · rw [hnacks]
    exact h.fits
  · intro x hx
    rw [hsubmitted] at hx
    rw [hnacks]
    rcases List.mem_append.mp hx with hx | hx
    · exact h.answered x hx
    -- what this pass has submitted was waiting before it
    · obtain ⟨k, hk, rfl⟩ : ∃ k ∈ sent, (k, (s.message k).submission now) = x := by
        rw [List.zip_eq_zipWith, List.zipWith_map_right, List.zipWith_self] at hx
        exact List.mem_map.mp hx
      have hwas : k ∈ s.waiting := hperm.subset (List.mem_append_right kept hk)
      exact h.answered_submission hwas (hdue k hk)

end RetryInv

section runs

variable [GrowthPolicy]

/-- **`handleTCPAck`** puts a message into the queue iff it answers `RespRetried`. -/
theorem handleTCPAck_queue (b : RedeliveryBroker) (now : ℕ) (topic : ByteString) (partition : ℤ)
    (data : List UInt8) :
    ((b.handleTCPAck now topic partition data).2 = .retried ∧
        (b.handleTCPAck now topic partition data).1.retryQueue =
          b.retryQueue ++ [Nack.message { topic, partition, data, time := now }]) ∨
      ((b.handleTCPAck now topic partition data).2 ≠ .retried ∧
        (b.handleTCPAck now topic partition data).1.retryQueue = b.retryQueue) := by
  have hrefused : AckStatus.error ≠ .retried := by decide
  have hsuccess : AckStatus.success ≠ .retried := by decide
  have hdlq : AckStatus.dlq ≠ .retried := by decide
  rw [RedeliveryBroker.handleTCPAck]
  split
  · exact Or.inr ⟨hrefused, rfl⟩
  split
  · exact Or.inr ⟨hsuccess, rfl⟩
  split
  · exact Or.inr ⟨hrefused, rfl⟩
  split
  · split
    · exact Or.inr ⟨hrefused, rfl⟩
    split
    · exact Or.inr ⟨hrefused, rfl⟩
    · exact Or.inr ⟨hdlq, rfl⟩
  split
  · exact Or.inr ⟨hrefused, rfl⟩
  · exact Or.inl ⟨rfl, rfl⟩

variable {s t : RetryProc}

/-- A step appends one message to the queue, leaves it alone, or runs the loop over it. -/
theorem RetryProc.step_cases {ev : RetryEvent} (hst : s.step ev = some t) :
    (∃ nack : Nack, Fits 32 nack.partition ∧ t.nacks = s.nacks ++ [nack] ∧
        t.waiting = s.waiting ++ [s.nacks.length] ∧ t.submitted = s.submitted ∧
        t.broker.retryQueue = s.broker.retryQueue ++ [nack.message]) ∨
      (t.nacks = s.nacks ∧ t.waiting = s.waiting ∧ t.submitted = s.submitted ∧
        t.broker.retryQueue = s.broker.retryQueue) ∨
      ∃ now accepts, t.nacks = s.nacks ∧
        t.waiting = (retryLoop s.message now accepts s.waiting).1 ∧
        t.submitted = s.submitted ++ (retryLoop s.message now accepts s.waiting).2.zip
          (s.broker.processRetryQueue now accepts).2 ∧
        t.broker.retryQueue = (s.broker.processRetryQueue now accepts).1.retryQueue := by
  cases ev with
  | handleTCPAck now topic partition data =>
    rw [step] at hst
    split at hst
    case isFalse => cases hst
    rename_i hfits
    rcases handleTCPAck_queue s.broker now topic partition data with
      ⟨hstatus, hqueue⟩ | ⟨hstatus, hqueue⟩
    · split at hst
      · rename_i broker heq
        cases hst
        rw [heq] at hqueue
        exact Or.inl ⟨{ topic, partition, data, time := now }, hfits, rfl, rfl, rfl, hqueue⟩
      · rename_i broker status hne heq
        rw [heq] at hstatus
        exact absurd hstatus hne
    · split at hst
      · rename_i broker heq
        rw [heq] at hstatus
        exact absurd rfl hstatus
      · rename_i broker status hne heq
        cases hst
        rw [heq] at hqueue
        exact Or.inr (Or.inl ⟨rfl, rfl, rfl, hqueue⟩)
  | processRetryQueue now accepts =>
    cases hst
    exact Or.inr (Or.inr ⟨now, accepts, rfl, rfl, rfl, rfl⟩)
  | other store node =>
    cases hst
    exact Or.inr (Or.inl ⟨rfl, rfl, rfl, rfl⟩)

theorem RetryInv.step {ev : RetryEvent} (h : RetryInv s) (hst : s.step ev = some t) : RetryInv t := by
  rcases RetryProc.step_cases hst with
    ⟨nack, hfits, hnacks, hwaiting, hsubmitted, hqueue⟩ |
    ⟨hnacks, hwaiting, hsubmitted, hqueue⟩ |
    ⟨now, accepts, hnacks, hwaiting, hsubmitted, hqueue⟩
  · exact h.enqueue hfits hnacks hwaiting hsubmitted hqueue
  · exact h.unchanged hnacks hwaiting hsubmitted hqueue
  · exact h.pass hnacks hwaiting hsubmitted hqueue

theorem RetryInv.of_run {guard : RetryProc → RetryEvent → RetryProc → Prop}
    (h : RetryInv s) (hrun : Run RetryProc.step guard s t) : RetryInv t :=
  hrun.invariant (P := RetryInv) h fun _ _ _ hinv _ hst => hinv.step hst

/-- **Conservation.** Whatever the clock and `SubmitCommand` do, each acknowledgement that was
answered `RespRetried` is either in the queue or has been submitted, exactly once; it was
submitted unchanged and not before it was due; the queue is in the order of the acknowledgements,
and a pass keeps the order of what it leaves there. -/
theorem retry_conserved {b : RedeliveryBroker} (hnew : b.retryQueue = [])
    (hrun : Run RetryProc.step (fun _ _ _ => True) { broker := b } s) :
    (∀ k, s.waiting.count k + (s.submitted.map Prod.fst).count k =
        if k < s.nacks.length then 1 else 0) ∧
      s.broker.retryQueue = s.waiting.map s.message ∧
      (∀ x ∈ s.submitted, ∃ nack, s.nacks[x.1]? = some nack ∧ nack.Answered x.2) ∧
      s.waiting.Pairwise (· < ·) ∧
      ∀ now accepts,
        (s.broker.processRetryQueue now accepts).1.retryQueue.Sublist s.broker.retryQueue := by
  have h := (RetryInv.init hnew).of_run hrun
  refine ⟨?_, h.queue, h.answered, h.order, ?_⟩
  · intro k
    rw [← List.count_append]
    exact h.conserved.count_eq k
  · intro now accepts
    exact retryLoop_sublist id now accepts s.broker.retryQueue

end runs

section

open scoped GrowthPolicy

/-- Two acknowledgements for the topic `t-0`; when the first is due, its submission fails once
and then succeeds. -/
theorem retry_conserved_two :
    ∃ s : RetryProc, s.waiting = [1] ∧ (s.submitted.map Prod.fst).count 0 = 1 ∧
      s.broker.retryQueue = [s.message 1] := by
  obtain ⟨s, hrun, hwaiting, hlen⟩ : ∃ s, Run RetryProc.step (fun _ _ _ => True)
      { broker := RedeliveryBroker.onePartition } s ∧ s.waiting = [1] ∧ s.nacks.length = 2 :=
    exists_run_of_execWith
      [.handleTCPAck 0 [116, 45, 48] 0 [0, 0, 0, 0, 0, 0, 0, 0, 1, 0, 7],
        .processRetryQueue (10 ^ 9) (fun _ => true),
        .handleTCPAck (2 * 10 ^ 9) [116, 45, 48] 0 [0, 0, 0, 0, 0, 0, 0, 1, 1, 0, 8],
        .processRetryQueue (5 * 10 ^ 9) (fun _ => false),
        .processRetryQueue (6 * 10 ^ 9) (fun _ => true)]
      (by decide +kernel)
  obtain ⟨hcount, hqueue, -⟩ := retry_conserved rfl hrun
  refine ⟨s, hwaiting, ?_, ?_⟩
  · have h := hcount 0
    rw [hwaiting, hlen] at h
    exact (Nat.zero_add _).symm.trans h
  · rw [hqueue, hwaiting, List.map_singleton]

end

end DistributedMQ.Broker
