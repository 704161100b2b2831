import DistributedMQ.Broker.Idempotent
import DistributedMQ.Broker.Namespaces
import DistributedMQ.Broker.Produce
import DistributedMQ.Broker.Redelivery
import DistributedMQ.Broker.StoreRestart

/-!
# The two ways into a broker (`broker.go` lines 393–503, 571–668 and 914–1020)

Messages are produced and consumed over HTTP (`handleProduce`, `handleConsume`) and over TCP
(`handleTCPProduce`, `handleTCPFetch`). Neither way knows who the client is. `Produce` and
`Consume`, which the HTTP handlers call, ask `CheckPermission` about the user `""`.

Decoded request bodies, the answers of the name server, the order of the index and the Raft
node as it is found are inputs.

- `handleProduce_allowed`, `handleConsume_allowed`: over HTTP nothing passes that is not
  allowed.
- `handleTCPProduce_created_iff`: over TCP a message is submitted whoever sends it.
- `access_paths_agree_iff`: over TCP the rules for a topic are kept iff they allow everything
  to the user `""`.
-/

namespace DistributedMQ.Broker

open Raft Storage Naming BigEndian

/-- `CheckPermission("", topic, action)` says yes. -/
def NamespaceManager.Open (nm : NamespaceManager) (topic : ByteString) (action : Action) : Prop :=
  nm.checkPermission "" (text topic) action = .ok true

/-! ## HTTP -/

/-- What `handleProduce` decodes from a body; the value is decoded from base64, too. -/
structure HttpProduceRequest where
  topic : ByteString
  key : String
  value : List UInt8

/-- The call of `Produce` for a request. -/
def HttpProduceRequest.call (req : HttpProduceRequest) : ProduceCall where
  topic := text req.topic
  key := req.key
  value := req.value
  userID := ""
  producerID := ""
  seqNum := 0

/-- The rest of `Produce`, if it comes to `SubmitCommand`. The Raft process is `raft` by
then. -/
def ProduceBroker.finish [GrowthPolicy] (s : ProduceBroker) (raft : Proc) (later : ℕ) :
    ProduceBroker :=
  match s.inFlight with
  | none => s
  | some x => { s with raft }.submit x later

/-- `handleProduce`: `none` is a body that cannot be decoded. -/
def handleProduce [GrowthPolicy] (nm : NamespaceManager) (s : ProduceBroker)
    (req : Option HttpProduceRequest) (route : Except String RouteInfo)
    (order : List (String × ProducerState)) (now : ℕ) (raft : Proc) (later : ℕ) :
    ProduceBroker :=
  match req with
  | none => s
  | some req =>
    (s.produce req.call (nm.checkPermission req.call.userID req.call.topic .produce) route order
      now).finish raft later

inductive ConsumeResult where
  | ok (msgs : List Message)
  | error (text : String)
  | panic
deriving DecidableEq

/-- The messages of an answer. -/
def ConsumeResult.msgs : ConsumeResult → List Message
  | .ok msgs => msgs
  | _ => []

/-- The loop of `Consume`; `none` is a panic. -/
def consumeLoop (log : CommitLog) (topic : ByteString) (partition : ℤ) :
    List IndexEntry → List Message → Option (List Message)
  | [], msgs => some msgs
  | entry :: entries, msgs =>
    match readEntry log entry with
    | .panic => none
    | .error => consumeLoop log topic partition entries msgs
    | .ok data =>
      consumeLoop log topic partition entries (msgs ++ [message topic partition entry data])

/-- `Consume`, ranging over the index in the order given. -/
def Store.consume (b : Store) (nm : NamespaceManager) (order : List IndexEntry)
    (topic : ByteString) (partition offset : ℤ) (userID : String) : ConsumeResult :=
  match nm.checkPermission userID (text topic) .consume with
  | .error e => .error e
  | .ok false =>
    .error s!"permission denied: user {userID} cannot consume from topic {text topic}"
  | .ok true =>
    match b.topics.lookup (partitionKey topic partition) with
    | none => .error "topic partition not found"
    | some tp =>
      match consumeLoop (tp.log (b.disk tp.basePath)) topic partition
        (SparseIndex.getEntriesAfter order offset) [] with
      | none => .panic
      | some msgs => .ok msgs

/-- What `handleConsume` decodes from a body. -/
structure HttpConsumeRequest where
  topic : ByteString
  partition : ℤ
  offset : ℤ

/-- `handleConsume`: `none` is a body that cannot be decoded. -/
def handleConsume (b : Store) (nm : NamespaceManager) (order : List IndexEntry) :
    Option HttpConsumeRequest → ConsumeResult
  | none => .error "invalid request"
  | some req => b.consume nm order req.topic req.partition req.offset ""

/-! ## TCP -/

/-- `handleTCPProduce`. The name server answers `leader` and, if it is asked again,
`newLeader`. The Raft node is `checked` when `IsPartitionLeader` looks at it and `node` when
`SubmitCommand` is called. -/
def handleTCPProduce [GrowthPolicy] (clientAddr : String) (topic : ByteString) (partition : ℤ)
    (data : List UInt8) (leader : Option String) (checked : RaftNode) (newLeader : Option String)
    (node : RaftNode) : RaftNode × Handler :=
  let h : Handler := { req := { topic := text topic, partition, data }, phase := .lookup }
  let h := h.onLookup clientAddr leader
  match h.phase with
  | .named leader =>
    if checked.state = .leader then
      let res := node.submitCommand h.req.topic h.req.partition h.req.msgData
      (res.1, h.onSubmit (node.commandEntry h.req.topic h.req.partition h.req.msgData) res.2)
    else (node, h.onLookupAgain leader newLeader)
  | _ => (node, h)

/-- `handleTCPFetch` up to the answer; a request that is too short is an error, too. -/
def handleTCPFetch (b : Store) (order : List IndexEntry) (topic : ByteString) (partition : ℤ)
    (data : List UInt8) : FetchResult :=
  if data.length < 8 then .error ""
  else
    let offset := toSigned 64 (decode (data.take 8))
    let maxBytes :=
      if 12 ≤ data.length then toSigned 32 (decode ((data.drop 8).take 4)) else 1024 * 1024
    b.fetch order topic partition offset maxBytes

/-- A message in the answer to a fetch. -/
def Message.bytes (msg : Message) : List UInt8 :=
  encode 8 msg.offset ++ encode 8 msg.timestamp ++ encode 4 msg.value.length ++ msg.value

/-- What `handleTCPFetch` writes to the connection; nothing if it panics. -/
def FetchResult.bytes : FetchResult → List UInt8
  | .ok msgs highWatermark =>
    [0xD0, RespStatus.success.byte] ++ encode 8 highWatermark ++ encode 4 msgs.length ++
      msgs.flatMap Message.bytes
  | .error _ => sendResponse { status := .error }
  | .panic => []

/-! ## What passes -/

section

variable [GrowthPolicy] {nm : NamespaceManager} {s : ProduceBroker} {topic : ByteString}
  {partition : ℤ} {data : List UInt8} {order : List IndexEntry}

omit [GrowthPolicy] in
/-- A call that is not allowed returns an error. -/
theorem produce_denied {call : ProduceCall} {allowed : Except String Bool}
    (h : allowed ≠ .ok true) (route : Except String RouteInfo)
    (order : List (String × ProducerState)) (now : ℕ) :
    ∃ e, s.produce call allowed route order now = s.answer call (.error e) := by
  cases allowed with
  | error e => exact ⟨e, rfl⟩
  | ok yes =>
    cases yes with
    | false => exact ⟨_, rfl⟩
    | true => exact absurd rfl h

/-- What HTTP produce submits, the topic's namespace is open for. -/
theorem handleProduce_allowed (hidle : s.inFlight = none) {req : HttpProduceRequest}
    {route : Except String RouteInfo} {order : List (String × ProducerState)} {now later : ℕ}
    {raft : Proc}
    (h : (handleProduce nm s (some req) route order now raft later).submitted ≠ s.submitted) :
    nm.Open req.topic .produce := by
  by_contra hclosed
  have hdenied : nm.checkPermission req.call.userID req.call.topic .produce ≠ .ok true := hclosed
  obtain ⟨e, he⟩ := @produce_denied s req.call _ hdenied route order now
  have hanswered : (s.answer req.call (.error e)).inFlight = none := hidle
  refine h ?_
  rw [handleProduce, he, ProduceBroker.finish, hanswered]
  rfl

omit [GrowthPolicy] in
/-- What HTTP consume returns, the topic's namespace is open for. -/
theorem handleConsume_allowed {b : Store} {req : HttpConsumeRequest}
    (h : (handleConsume b nm order (some req)).msgs ≠ []) : nm.Open req.topic .consume := by
  rw [handleConsume, Store.consume] at h
  split at h
  · exact absurd rfl h
  · exact absurd rfl h
  · assumption

/-- **TCP produce.** Whether a message is submitted depends on the name server and on the Raft
node, and on nothing else. -/
theorem handleTCPProduce_created_iff {clientAddr : String} {leader newLeader : Option String}
    {checked node : RaftNode} :
    (handleTCPProduce clientAddr topic partition data leader checked newLeader node).2.created ≠
        none ↔
      leader = some clientAddr ∧ checked.state = .leader ∧ node.state = .leader := by
  unfold handleTCPProduce
  cases leader with
  | none => simp [Handler.onLookup, Handler.answer]
  | some leader =>
    by_cases haddr : leader = clientAddr
    · subst haddr
      simp only [Handler.onLookup, if_true]
      split
      · rename_i hchecked
        by_cases hnode : node.state = .leader
        · obtain ⟨node', res, hsubmit⟩ := RedeliveryBroker.submitCommand_ok hnode (text topic)
            partition data.tail
          rw [ProduceRequest.msgData, hsubmit]
          simp [Handler.onSubmit, hchecked, hnode]
        · rw [RaftNode.submitCommand, if_neg hnode]
          simp [Handler.onSubmit, Handler.answer, hnode]
      · rename_i hchecked
        cases newLeader <;> simp [Handler.onLookupAgain, Handler.answer, hchecked]
    · simp [Handler.onLookup, Handler.answer, haddr]

omit [GrowthPolicy] in
/-- **TCP fetch.** Some broker has a message to return. -/
theorem exists_handleTCPFetch (topic : ByteString) (partition : ℤ) :
    ∃ (b : Store) (tp : TopicPartition) (order : List IndexEntry) (data : List UInt8),
      b.topics.lookup (partitionKey topic partition) = some tp ∧ tp.index.Order order ∧
      (handleTCPFetch b order topic partition data).msgs ≠ [] := by
  let _ := literalGlob
  let b : Store := { dataDir := [], disk := fun _ => ∅ }
  let a : Applied := { entry := { topic, partition, data := [0] } }
  have hfirst : FirstMessage (b.applyEntry a) topic partition [0] :=
    firstMessage_applyEntry rfl (fun _ => rfl) (fun _ => rfl) (by show 1 < 2 ^ 31; decide)
  obtain ⟨tp, order, msg, htp, horder, hmsg, -, -⟩ :=
    hfirst.exists_fetch ((Store.placed_of_new rfl).applyEntry a)
  -- a request for everything that takes only one message
  have hoffset : toSigned 64 (decode ((List.replicate 12 0xFF).take 8)) = -1 := by decide +kernel
  have hmax : toSigned 32 (decode (((List.replicate 12 0xFF).drop 8).take 4)) = -1 := by
    decide +kernel
  refine ⟨b.applyEntry a, tp, order, List.replicate 12 0xFF, htp, horder, ?_⟩
  rw [handleTCPFetch, if_neg (by decide), hoffset, if_pos (by decide), hmax]
  exact List.ne_nil_of_mem hmsg

/-- **The two ways.** Over HTTP a message of a topic is submitted or returned only if the user
`""` may do so. Over TCP this holds for a produce request iff the user may, or the name server
does not name this broker, or the node does not lead; and it holds for all fetch requests on
all brokers iff the user may. -/
theorem access_paths_agree_iff (nm : NamespaceManager) (topic : ByteString) (partition : ℤ) :
    (∀ s req route order now raft later, s.inFlight = none → req.topic = topic →
      (handleProduce nm s (some req) route order now raft later).submitted ≠ s.submitted →
        nm.Open topic .produce) ∧
    (∀ b order req, req.topic = topic → (handleConsume b nm order (some req)).msgs ≠ [] →
      nm.Open topic .consume) ∧
    (∀ clientAddr data leader checked newLeader node,
      ((handleTCPProduce clientAddr topic partition data leader checked newLeader
          node).2.created ≠ none → nm.Open topic .produce) ↔
        nm.Open topic .produce ∨ leader ≠ some clientAddr ∨ checked.state ≠ .leader ∨
          node.state ≠ .leader) ∧
    ((∀ b tp order data, b.topics.lookup (partitionKey topic partition) = some tp →
      tp.index.Order order → (handleTCPFetch b order topic partition data).msgs ≠ [] →
        nm.Open topic .consume) ↔ nm.Open topic .consume) := by
  refine ⟨?_, ?_, ?_, ?_⟩
  · rintro s req route order now raft later hidle rfl h
    exact handleProduce_allowed hidle h
  · rintro b order req rfl h
    exact handleConsume_allowed h
  · intro clientAddr data leader checked newLeader node
    rw [handleTCPProduce_created_iff]
    tauto
  · constructor
    · intro h
      obtain ⟨b, tp, order, data, htp, horder, hmsgs⟩ := exists_handleTCPFetch topic partition
      exact h b tp order data htp horder hmsgs
    · exact fun hopen _ _ _ _ _ _ _ => hopen

end

section

open scoped GrowthPolicy

/-- The user `""` may neither produce to the topic `t` nor consume from it. -/
def closedTopic : NamespaceManager :=
  let nm := (({} : NamespaceManager).createNamespace "n" {}).1
  let nm := (nm.addTopic "n" "t").1
  (nm.addACL "n" "" "t" [.produce, .consume] false).1

/-- Over TCP a message of this topic is submitted, and one is returned. -/
theorem tcp_ignores_rules :
    closedTopic.checkPermission "" (text [116]) .produce = .ok false ∧
      closedTopic.checkPermission "" (text [116]) .consume = .ok false ∧
      (handleTCPProduce "a" [116] 0 [1, 7] (some "a") RedeliveryBroker.onePartition.node none
        RedeliveryBroker.onePartition.node).2.created ≠ none ∧
      (handleTCPFetch RedeliveryBroker.onePartition.store [⟨0, 1, 0⟩] [116] 0
        (List.replicate 8 0xFF)).msgs = [⟨[116], 0, 0, 0, [7]⟩] := by
  refine ⟨by decide +kernel, by decide +kernel, ?_, by decide +kernel⟩
  exact handleTCPProduce_created_iff.mpr ⟨rfl, rfl, rfl⟩

end

end DistributedMQ.Broker
