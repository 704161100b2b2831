import DistributedMQ.Client.Decoder

/-!
# Produce requests on the wire (`MQProducer.java` lines 75–123, `MQEncoder.java` and `broker.go`
lines 861–964)

A request is a header of twelve bytes, the topic and a payload. `doSend` puts the `acks` byte in
front of the data; `MQEncoder.encode` does not. `handleClient` cuts the requests off the
connection, and `handleTCPProduce` takes the first byte of every payload for `acks`.

- `produce_requests_round_trip`: what `doSend` writes is read and submitted as it was sent.
- `encoders_agree_iff`: what `MQEncoder.encode` writes loses its first byte of data.
-/

namespace DistributedMQ

open Naming BigEndian Framing

namespace Client

/-! ## What the client writes -/

/-- The bytes of a produce request. `writeShort` keeps two bytes of the length of the topic. -/
def produceFrame (topic : ByteString) (partition : Int32) (payload : List UInt8) : List UInt8 :=
  [MQCommand.MAGIC, MQCommand.CMD_PRODUCE] ++ (encode 2 topic.length ++
    (putInt32 partition ++ (putInt32 (Int32.ofNat payload.length) ++ (topic ++ payload))))

/-- The request as it is put into a buffer, which has less than 2³¹ bytes; what does not fit
throws. -/
def writeProduce (topic : ByteString) (partition : Int32) (payload : List UInt8) :
    Option (List UInt8) :=
  let frame := produceFrame topic partition payload
  if frame.length < 2 ^ 31 then some frame else none

/-- The arguments of `doSend`. The topic is the result of its `getBytes`. -/
structure SendCall where
  topic : ByteString
  partition : Int32
  data : List UInt8
  acks : Int32
deriving DecidableEq

/-- `fullData`: the cast `(byte) acks`, then the data. -/
def SendCall.fullData (call : SendCall) : List UInt8 := call.acks.toInt8.toUInt8 :: call.data

/-- What `doSend` writes. -/
def SendCall.doSend (call : SendCall) : Option (List UInt8) :=
  writeProduce call.topic call.partition call.fullData

/-- `MQEncoder.encode`; the data may be null. -/
def MQEncoder.encode (topic : ByteString) (partition : Int32) (data : Option (List UInt8)) :
    Option (List UInt8) :=
  writeProduce topic partition (data.getD [])

end Client

namespace Broker

open Raft

/-! ## What the broker reads -/

/-- A request as `handleClient` reads it. -/
structure TcpCommand where
  cmdID : UInt8
  topic : ByteString
  partition : Int32
  data : List UInt8
deriving DecidableEq

/-- The functions `handleClient` calls. -/
inductive TcpHandler where
  | produce
  | fetch
  | joinGroup
  | heartbeat
  | commitOffset
  | leaveGroup
  | ack
deriving DecidableEq

/-- The `switch` over `cmdID`; an unknown command is only printed. -/
def TcpHandler.ofCmdID (cmdID : UInt8) : Option TcpHandler :=
  if cmdID = 0x01 then some .produce
  else if cmdID = 0x02 then some .fetch
  else if cmdID = 0x03 then some .joinGroup
  else if cmdID = 0x04 then some .heartbeat
  else if cmdID = 0x05 then some .commitOffset
  else if cmdID = 0x06 then some .leaveGroup
  else if cmdID = 0x07 then some .ack
  else none

/-- A call `handleClient` makes. -/
structure TcpCall where
  handler : TcpHandler
  topic : ByteString
  partition : Int32
  data : List UInt8
deriving DecidableEq

def TcpCommand.call (c : TcpCommand) : Option TcpCall :=
  (TcpHandler.ofCmdID c.cmdID).map fun handler =>
    { handler, topic := c.topic, partition := c.partition, data := c.data }

/-- A turn of the loop of `handleClient` on what comes over the connection. `io.ReadFull` waits
for the bytes it is asked for; a wrong magic byte closes the connection. -/
def readCommand (conn : List UInt8) : Outcome TcpCommand UInt8 :=
  if conn.length < 12 then .wait
  else
    match conn with
    | magic :: cmdID :: conn =>
      if magic ≠ 0xD0 then .fail
      else
        let (topicLen, conn) := readNat 2 conn
        let (partition, conn) := readInt32 conn
        let (dataLen, conn) := readNat 4 conn
        if conn.length < topicLen then .wait
        else
          let topic := conn.take topicLen
          let conn := conn.drop topicLen
          if conn.length < dataLen then .wait
          else
            .emit { cmdID, topic, partition, data := conn.take dataLen } (conn.drop dataLen)
    | _ => .wait

/-- `handleClient`: the calls it makes when these bytes come over the connection. -/
def handleClient (conn : List UInt8) : List TcpCall :=
  (drain readCommand conn.length conn).1.filterMap TcpCommand.call

open Client

/-- The bytes in front of the topic. -/
def commandHeader (topic : ByteString) (partition : Int32) (payload : List UInt8) : List UInt8 :=
  [MQCommand.MAGIC, MQCommand.CMD_PRODUCE] ++ (encode 2 topic.length ++
    (putInt32 partition ++ putInt32 (Int32.ofNat payload.length)))

theorem length_commandHeader (topic : ByteString) (partition : Int32) (payload : List UInt8) :
    (commandHeader topic partition payload).length = 12 := by
  simp only [commandHeader, List.length_append, length_putInt32, length_encode, List.length_cons,
    List.length_nil]

theorem produceFrame_eq (topic : ByteString) (partition : Int32) (payload : List UInt8) :
    produceFrame topic partition payload =
      commandHeader topic partition payload ++ (topic ++ payload) := by
  simp only [produceFrame, commandHeader, List.append_assoc]

theorem length_produceFrame (topic : ByteString) (partition : Int32) (payload : List UInt8) :
    (produceFrame topic partition payload).length = 12 + (topic.length + payload.length) := by
  rw [produceFrame_eq, List.length_append, List.length_append, length_commandHeader]

/-- What the loop does behind the header. -/
theorem readCommand_header {topic : ByteString} (htopic : topic.length ≤ 65535)
    {payload : List UInt8} (hpayload : payload.length < 2 ^ 31) (partition : Int32)
    (conn : List UInt8) :
    readCommand (commandHeader topic partition payload ++ conn) =
      if conn.length < topic.length then .wait
      else if (conn.drop topic.length).length < payload.length then .wait
      else
        .emit
          { cmdID := MQCommand.CMD_PRODUCE, topic := conn.take topic.length, partition,
            data := (conn.drop topic.length).take payload.length }
          ((conn.drop topic.length).drop payload.length) := by
  have hlen : ¬ (commandHeader topic partition payload ++ conn).length < 12 := by
    rw [List.length_append, length_commandHeader]
    omega
  have htopicLen : topic.length % 256 ^ 2 = topic.length := Nat.mod_eq_of_lt (by omega)
  have hdataLen : payload.length % 256 ^ 4 = payload.length := Nat.mod_eq_of_lt (by omega)
  have hmagic : ¬ MQCommand.MAGIC ≠ 0xD0 := by decide
  unfold readCommand
  rw [if_neg hlen]
  simp only [commandHeader, List.append_assoc, List.cons_append, List.nil_append, if_neg hmagic,
    readNat_encode, readInt32_put, putInt32_ofNat, htopicLen, hdataLen]

/-- `handleClient` takes a produce request off the connection once all of it is there. -/
theorem readCommand_delimits :
    Delimits readCommand
      (fun c : TcpCommand => produceFrame c.topic c.partition c.data) id
      fun c => c.cmdID = MQCommand.CMD_PRODUCE ∧ c.topic.length ≤ 65535 ∧
        c.data.length < 2 ^ 31 where
  ne_nil _ _ := List.cons_ne_nil _ _
  whole := by
    rintro ⟨cmdID, topic, partition, data⟩ ⟨rfl, htopic, hdata⟩ rest
    dsimp only at htopic hdata ⊢
    have hlen : ¬ (topic ++ (data ++ rest)).length < topic.length := by
      rw [List.length_append]
      omega
    have hlen' : ¬ (data ++ rest).length < data.length := by
      rw [List.length_append]
      omega
    rw [produceFrame_eq, List.append_assoc, List.append_assoc, readCommand_header htopic hdata,
      if_neg hlen, List.drop_left, if_neg hlen', List.take_left, List.take_left, List.drop_left]
    rfl
  cut := by
    rintro ⟨cmdID, topic, partition, data⟩ ⟨rfl, htopic, hdata⟩ part hpart hne _
    dsimp only at htopic hdata hpart hne
    rw [produceFrame_eq] at hpart hne
    by_cases hshort : part.length < 12
    · unfold readCommand
      rw [if_pos hshort]
    -- the header is there
    obtain ⟨conn, rfl, hconn⟩ := exists_of_prefix_append hpart
      (by rw [length_commandHeader]; omega)
    rw [readCommand_header htopic hdata]
    split
    · rfl
    -- the topic is there, too, so the payload is cut
    rename_i htopicLen
    obtain ⟨buf, rfl, hbuf⟩ := exists_of_prefix_append hconn (Nat.le_of_not_lt htopicLen)
    rw [List.drop_left]
    refine if_pos (Nat.lt_of_not_le fun hle => hne ?_)
    rw [hbuf.eq_of_length_le hle]

/-- The calls for some produce requests. -/
theorem handleClient_produceFrames {cs : List TcpCommand}
    (hcs : ∀ c ∈ cs, c.cmdID = MQCommand.CMD_PRODUCE ∧ c.topic.length ≤ 65535 ∧
      c.data.length < 2 ^ 31) :
    handleClient (cs.flatMap fun c => produceFrame c.topic c.partition c.data) =
      cs.map fun c => ⟨.produce, c.topic, c.partition, c.data⟩ := by
  rw [handleClient, drain_flatMap readCommand_delimits hcs (Nat.le_refl _), List.map_id]
  rw [← List.filterMap_eq_map]
  refine List.filterMap_congr fun c hc => ?_
  rw [TcpCommand.call, (hcs c hc).1]
  rfl

end Broker

namespace Client

open Broker Raft

variable {topic : ByteString} {partition : Int32} {payload frame : List UInt8}

theorem eq_of_writeProduce (h : writeProduce topic partition payload = some frame) :
    frame = produceFrame topic partition payload ∧ payload.length < 2 ^ 31 := by
  rw [writeProduce] at h
  split at h
  · rename_i hlen
    refine ⟨(Option.some.inj h).symm, ?_⟩
    rw [length_produceFrame] at hlen
    omega
  · exact absurd h.symm (Option.some_ne_none _)

/-- The command of a request. -/
def SendCall.command (call : SendCall) : TcpCommand where
  cmdID := MQCommand.CMD_PRODUCE
  topic := call.topic
  partition := call.partition
  data := call.fullData

theorem frames_eq {calls : List SendCall} {frames : List (List UInt8)}
    (h : List.Forall₂ (fun call frame => SendCall.doSend call = some frame) calls frames) :
    frames.flatten =
        (calls.map SendCall.command).flatMap fun c => produceFrame c.topic c.partition c.data := by
  induction h with
  | nil => rfl
  | cons hcall _ ih =>
    rw [List.flatten_cons, List.map_cons, List.flatMap_cons, ih, (eq_of_writeProduce hcall).1]
    rfl

theorem length_fullData_of_mem {calls : List SendCall} {frames : List (List UInt8)}
    (h : List.Forall₂ (fun call frame => SendCall.doSend call = some frame) calls frames)
    {call : SendCall} (hcall : call ∈ calls) : call.fullData.length < 2 ^ 31 := by
  induction h with
  | nil => exact absurd hcall List.not_mem_nil
  | cons hfirst _ ih =>
    rcases List.mem_cons.mp hcall with rfl | hlater
    · exact (eq_of_writeProduce hfirst).2
    · exact ih hlater

/-- A broker that passes both checks submits what is behind the first byte. -/
theorem handleTCPProduce_submits [GrowthPolicy] (clientAddr : String) (topic : ByteString)
    (partition : ℤ) (data : List UInt8) (newLeader : Option String) {checked : RaftNode}
    (hchecked : checked.state = .leader) (node : RaftNode) :
    (handleTCPProduce clientAddr topic partition data (some clientAddr) checked newLeader
        node).2.req = { topic := text topic, partition, data } ∧
      (handleTCPProduce clientAddr topic partition data (some clientAddr) checked newLeader
        node).1 = (node.submitCommand (text topic) partition data.tail).1 := by
  simp only [handleTCPProduce, Handler.onLookup, if_true, hchecked, ProduceRequest.msgData]
  cases (node.submitCommand (text topic) partition data.tail).2 with
  | error _ => exact ⟨rfl, trivial⟩
  | ok _ => exact ⟨rfl, trivial⟩

/-- **Requests.** Produce requests that `doSend` has written one after the other are read as
they were sent; and a broker that passes both checks finds the `acks` byte in the payload and
submits the data. -/
theorem produce_requests_round_trip [GrowthPolicy] (calls : List SendCall)
    (htopics : ∀ call ∈ calls, call.topic.length ≤ 65535) (frames : List (List UInt8))
    (hframes : List.Forall₂ (fun call frame => SendCall.doSend call = some frame) calls frames) :
    handleClient frames.flatten =
        calls.map (fun call => ⟨.produce, call.topic, call.partition, call.fullData⟩) ∧
      ∀ call ∈ calls, ∀ clientAddr newLeader (checked node : RaftNode), checked.state = .leader →
        (handleTCPProduce clientAddr call.topic call.partition.toInt call.fullData
            (some clientAddr) checked newLeader node).2.req.acks = call.acks.toInt8 ∧
        (handleTCPProduce clientAddr call.topic call.partition.toInt call.fullData
            (some clientAddr) checked newLeader node).1 =
          (node.submitCommand (text call.topic) call.partition.toInt call.data).1 := by
  constructor
  · rw [frames_eq hframes, handleClient_produceFrames, List.map_map]
    · rfl
    · intro c hc
      obtain ⟨call, hcall, rfl⟩ := List.mem_map.mp hc
      exact ⟨rfl, htopics call hcall, length_fullData_of_mem hframes hcall⟩
  · intro call _ clientAddr newLeader checked node hchecked
    obtain ⟨hreq, hsubmit⟩ := handleTCPProduce_submits clientAddr call.topic call.partition.toInt
      call.fullData newLeader hchecked node
    exact ⟨congrArg ProduceRequest.acks hreq, hsubmit⟩

section

open scoped GrowthPolicy

/-- A request without data that waits for the commit, and one for another partition. -/
def twoCalls : List SendCall := [⟨[116], 0, [], -1⟩, ⟨[116], -1, [9], 1⟩]

theorem produce_requests_round_trip_twoCalls :
    handleClient ((twoCalls.map fun call =>
        produceFrame call.topic call.partition call.fullData).flatten) =
      [⟨.produce, [116], 0, [0xFF]⟩, ⟨.produce, [116], -1, [1, 9]⟩] :=
  (produce_requests_round_trip twoCalls (by decide) _ (.cons rfl (.cons rfl .nil))).1

end

/-! ## The two encoders -/

/-- The topic of a request has at most as many bytes as a length of two bytes can say. -/
theorem length_topic_of_readCommand {conn rest : List UInt8} {c : TcpCommand}
    (h : readCommand conn = .emit c rest) : c.topic.length ≤ 65535 := by
  unfold readCommand at h
  split at h
  · cases h
  split at h
  · split at h
    · cases h
    dsimp only at h
    split at h
    · cases h
    split at h
    · cases h
    · cases h
      exact (List.length_take_le _ _).trans (Nat.le_of_lt_succ (readNat_lt 2 _))
  · cases h

theorem length_topic_of_handleClient {conn : List UInt8} {call : TcpCall}
    (h : call ∈ handleClient conn) : call.topic.length ≤ 65535 := by
  obtain ⟨c, hc, hcall⟩ := List.mem_filterMap.mp h
  obtain ⟨bytes, rest, hread⟩ := exists_dec_of_mem_drain hc
  obtain ⟨handler, -, rfl⟩ := Option.map_eq_some_iff.mp hcall
  exact length_topic_of_readCommand hread

/-- The request is written, read as one call for this topic and partition, and every broker that
passes its checks and leads submits this data. -/
def Submits [GrowthPolicy] (written : Option (List UInt8)) (topic : ByteString)
    (partition : Int32) (data : List UInt8) : Prop :=
  ∃ frame payload, written = some frame ∧
    handleClient frame = [⟨.produce, topic, partition, payload⟩] ∧
    ∀ clientAddr newLeader (checked node : RaftNode), checked.state = .leader →
      node.state = .leader →
        RedeliveryBroker.Submitted node
          (handleTCPProduce clientAddr topic partition.toInt payload (some clientAddr) checked
            newLeader node).1 topic partition.toInt data

theorem submitted_iff [GrowthPolicy] {node : RaftNode} (hnode : node.state = .leader)
    {topic : ByteString} {partition : ℤ} {data data' : List UInt8} :
    RedeliveryBroker.Submitted node (node.submitCommand (text topic) partition data).1 topic
        partition data' ↔ data = data' := by
  rw [RedeliveryBroker.Submitted, (RaftNode.submitCommand_leader hnode _ _ _).1]
  constructor
  · intro h
    have helems := congrArg GoSlice.elems h
    rw [GoSlice.elems_append, GoSlice.elems_append] at helems
    have hentry := List.append_cancel_left helems
    exact congrArg LogEntry.data (List.singleton_inj.mp hentry)
  · rintro rfl
    rfl

theorem handleClient_produceFrame (htopic : topic.length ≤ 65535)
    (hlen : (produceFrame topic partition payload).length < 2 ^ 31) :
    handleClient (produceFrame topic partition payload) =
      [⟨.produce, topic, partition, payload⟩] := by
  let c : TcpCommand := ⟨MQCommand.CMD_PRODUCE, topic, partition, payload⟩
  have hpayload : payload.length < 2 ^ 31 := by
    rw [length_produceFrame] at hlen
    omega
  have hcs := @handleClient_produceFrames [c]
    (List.forall_mem_singleton.mpr ⟨rfl, htopic, hpayload⟩)
  rwa [List.flatMap_singleton] at hcs

/-- A payload is submitted without its first byte. -/
theorem submits_iff [GrowthPolicy] {data : List UInt8} :
    Submits (writeProduce topic partition payload) topic partition data ↔
      topic.length ≤ 65535 ∧ (produceFrame topic partition payload).length < 2 ^ 31 ∧
        payload.tail = data := by
  constructor
  · rintro ⟨frame, payload', hframe, hclient, hsubmitted⟩
    have htopic : topic.length ≤ 65535 :=
      length_topic_of_handleClient (hclient ▸ List.mem_singleton_self _)
    rw [writeProduce] at hframe
    split at hframe
    · rename_i hlen
      cases hframe
      rw [handleClient_produceFrame htopic hlen, List.singleton_inj] at hclient
      obtain rfl := congrArg TcpCall.data hclient
      refine ⟨htopic, hlen, ?_⟩
      -- any node that leads reads the same data
      obtain ⟨node, hleader⟩ : ∃ node : RaftNode, node.state = .leader :=
        ⟨{ newRaftNode "" [] "" {} with state := .leader }, rfl⟩
      have h := hsubmitted "" none _ _ hleader hleader
      rw [(handleTCPProduce_submits _ _ _ _ _ hleader _).2] at h
      exact (submitted_iff hleader).mp h
    · exact absurd hframe.symm (Option.some_ne_none _)
  · rintro ⟨htopic, hlen, rfl⟩
    refine ⟨_, payload, if_pos hlen, handleClient_produceFrame htopic hlen, ?_⟩
    intro clientAddr newLeader checked node hchecked hnode
    rw [(handleTCPProduce_submits _ _ _ _ _ hchecked _).2]
    exact (submitted_iff hnode).mpr rfl

/-- **The two encoders.** A request of `MQEncoder.encode` and one of `doSend` are both submitted
with their topic, partition and data iff there is no data and the length of the topic fits in
two bytes. -/
theorem encoders_agree_iff [GrowthPolicy] (topic : ByteString) (partition : Int32)
    (data : List UInt8) (acks : Int32) :
    (Submits (MQEncoder.encode topic partition (some data)) topic partition data ∧
        Submits (SendCall.doSend ⟨topic, partition, data, acks⟩) topic partition data) ↔
      data = [] ∧ topic.length ≤ 65535 := by
  rw [MQEncoder.encode, SendCall.doSend, submits_iff, submits_iff, length_produceFrame,
    length_produceFrame]
  constructor
  · rintro ⟨⟨htopic, -, hdata⟩, -⟩
    refine ⟨?_, htopic⟩
    -- a list is its own tail only if it is empty
    have hlen := congrArg List.length hdata
    rw [List.length_tail, Option.getD_some] at hlen
    exact List.length_eq_zero_iff.mp (by omega)
  · rintro ⟨rfl, htopic⟩
    refine ⟨⟨htopic, ?_, rfl⟩, htopic, ?_, rfl⟩
    · rw [Option.getD_some, List.length_nil]
      omega
    · show 12 + (topic.length + 1) < 2 ^ 31
      omega

section

open scoped GrowthPolicy

/-- The message `[7, 8]` loses its first byte, and the other encoder's does not. -/
theorem encoder_drops_byte :
    Submits (SendCall.doSend ⟨[116], 0, [7, 8], 1⟩) [116] 0 [7, 8] ∧
      ¬ Submits (MQEncoder.encode [116] 0 (some [7, 8])) [116] 0 [7, 8] ∧
      Submits (MQEncoder.encode [116] 0 (some [7, 8])) [116] 0 [8] := by
  refine ⟨submits_iff.mpr ⟨by decide, by decide, rfl⟩, fun h => ?_,
    submits_iff.mpr ⟨by decide, by decide, rfl⟩⟩
  obtain ⟨-, -, hdata⟩ := submits_iff.mp h
  exact absurd hdata (by decide)

end

end Client

end DistributedMQ
