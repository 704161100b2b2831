import DistributedMQ.Client.Requests

/-!
# Fetching over the wire (`samples/go-consumer/main.go` lines 219–312,
`samples/go-dlq-consumer/main.go` lines 70–148, `MQConsumer.java` lines 219–232 and `broker.go`
lines 861–912, 966–1019)

The three consumers write the same fetch request. The two in Go read the answer with
`io.ReadFull`: fourteen bytes, then what the status asks for. An error of the broker has two
bytes, so after one of them `fetch` waits for bytes that nobody sends.

- `fetch_delimits`: `handleClient` reads fetch requests as they were sent.
- `handleTCPFetch_payload`: and finds offset and limit in them.
- `readResponse_eq_decode`: on an answer that begins like a success `fetch` reads what `MQDecoder`
  reads, unless that fails.
- `readResponse_delimits`: so it reads every success as it was written, and waits as long as a
  part of it is missing.
-/

namespace DistributedMQ

open Naming BigEndian Framing

namespace Client

/-! ## Requests -/

/-- The payload of a fetch request: `PutUint64(uint64(offset))`, `PutUint32(uint32(maxBytes))`. -/
def fetchPayload (offset : Int64) (maxBytes : Int32) : List UInt8 :=
  putInt64 offset ++ putInt32 maxBytes

/-- The bytes of a fetch request. -/
def fetchFrame (topic : ByteString) (partition : Int32) (payload : List UInt8) : List UInt8 :=
  [MQCommand.MAGIC, 0x02] ++ (encode 2 topic.length ++
    (putInt32 partition ++ (putInt32 (Int32.ofNat payload.length) ++ (topic ++ payload))))

theorem length_fetchPayload (offset : Int64) (maxBytes : Int32) :
    (fetchPayload offset maxBytes).length = 12 := by
  rw [fetchPayload, List.length_append, length_putInt64, length_putInt32]

end Client

namespace Broker

open Client Storage

/-- The command is only passed on. -/
theorem readCommand_cmdID (cmdID cmdID' : UInt8) (conn : List UInt8) :
    readCommand (0xD0 :: cmdID :: conn) =
      (readCommand (0xD0 :: cmdID' :: conn)).map fun c => { c with cmdID } := by
  have hmagic : ¬ (0xD0 : UInt8) ≠ 0xD0 := by decide
  simp only [readCommand, List.length_cons, if_neg hmagic]
  split
  · rfl
  · split
    · rfl
    · split
      · rfl
      · rfl

/-- `handleClient` takes a fetch request off the connection once all of it is there. -/
theorem fetch_delimits :
    Delimits readCommand (fun c : TcpCommand => fetchFrame c.topic c.partition c.data) id
      fun c => c.cmdID = 0x02 ∧ c.topic.length ≤ 65535 ∧ c.data.length < 2 ^ 31 where
  ne_nil _ _ := List.cons_ne_nil _ _
  whole := by
    rintro ⟨cmdID, topic, partition, data⟩ ⟨rfl, htopic, hdata⟩ rest
    have hproduce := readCommand_delimits.whole ⟨MQCommand.CMD_PRODUCE, topic, partition, data⟩
      ⟨rfl, htopic, hdata⟩ rest
    show readCommand (0xD0 :: 0x02 :: _) = _
    rw [readCommand_cmdID 0x02 MQCommand.CMD_PRODUCE]
    exact congrArg (Outcome.map _) hproduce
  cut := by
    rintro ⟨cmdID, topic, partition, data⟩ ⟨rfl, htopic, hdata⟩ part hpart hne _
    by_cases hshort : part.length < 2
    · unfold readCommand
      exact if_pos (by omega)
    -- the command is there
    obtain ⟨conn, rfl, hconn⟩ := exists_of_prefix_append hpart (Nat.le_of_not_lt hshort)
    have hproduce := readCommand_delimits.cut ⟨MQCommand.CMD_PRODUCE, topic, partition, data⟩
      ⟨rfl, htopic, hdata⟩ ([MQCommand.MAGIC, MQCommand.CMD_PRODUCE] ++ conn)
      ((List.prefix_append_right_inj _).mpr hconn)
      (fun heq => hne (congrArg _ (List.append_cancel_left heq))) (List.cons_ne_nil _ _)
    show readCommand (0xD0 :: 0x02 :: conn) = _
    rw [readCommand_cmdID 0x02 MQCommand.CMD_PRODUCE]
    exact congrArg (Outcome.map _) hproduce

theorem toSigned_decode_putInt64 (x : Int64) : toSigned 64 (decode (putInt64 x)) = x.toInt := by
  have hlt : x.toBitVec.toNat < 256 ^ 8 := x.toBitVec.isLt
  rw [putInt64, decode_encode, Nat.mod_eq_of_lt hlt]
  exact (BitVec.toInt_eq_toNat_bmod x.toBitVec).symm

theorem toSigned_decode_putInt32 (x : Int32) : toSigned 32 (decode (putInt32 x)) = x.toInt := by
  have hlt : x.toBitVec.toNat < 256 ^ 4 := x.toBitVec.isLt
  rw [putInt32, decode_encode, Nat.mod_eq_of_lt hlt]
  exact (BitVec.toInt_eq_toNat_bmod x.toBitVec).symm

/-- What a fetch request asks for is what the store is asked for. -/
theorem handleTCPFetch_payload (b : Store) (order : List IndexEntry) (topic : ByteString)
    (partition : ℤ) (offset : Int64) (maxBytes : Int32) :
    handleTCPFetch b order topic partition (fetchPayload offset maxBytes) =
      b.fetch order topic partition offset.toInt maxBytes.toInt := by
  have hshort : ¬ (fetchPayload offset maxBytes).length < 8 := by
    rw [length_fetchPayload]
    decide
  have hlong : 12 ≤ (fetchPayload offset maxBytes).length := by rw [length_fetchPayload]
  have htake : (fetchPayload offset maxBytes).take 8 = putInt64 offset :=
    List.take_left' (length_putInt64 offset)
  have hdrop : ((fetchPayload offset maxBytes).drop 8).take 4 = putInt32 maxBytes := by
    rw [fetchPayload, List.drop_left' (length_putInt64 offset),
      List.take_of_length_le (length_putInt32 maxBytes).le]
  rw [handleTCPFetch, if_neg hshort, htake, toSigned_decode_putInt64]
  dsimp only
  rw [if_pos hlong, hdrop, toSigned_decode_putInt32]

end Broker

namespace Client.GoConsumer

open Broker

/-! ## Answers -/

/-- What `fetch` returns: messages and the high watermark, or an error. The connection is reset
after a redirect, not after the other errors. A message has the fields of the Java client's. -/
inductive FetchOutcome where
  | messages (msgs : List MQMessage) (highWatermark : Int64)
  | redirect (leaderAddr : ByteString)
  | error (text : String)

/-- `%x`. -/
def hex (b : UInt8) : String := String.ofList (Nat.toDigits 16 b.toNat)

/-- The loop over `msgCount`; lengths are unsigned. -/
def readMessages : ℕ → List UInt8 → Outcome (List MQMessage) UInt8
  | 0, conn => .emit [] conn
  | n + 1, conn =>
    if conn.length < 20 then .wait
    else
      let (offset, conn) := readInt64 conn
      let (timestamp, conn) := readInt64 conn
      let (dataLen, conn) := readNat 4 conn
      if conn.length < dataLen then .wait
      else
        (readMessages n (conn.drop dataLen)).map fun messages =>
          { offset, timestamp, data := conn.take dataLen } :: messages

/-- `fetch` on what comes over the connection, behind the request; `unknown` is the text for a
status that is none of the three. -/
def readAnswer (unknown : UInt8 → String) (conn : List UInt8) : Outcome FetchOutcome UInt8 :=
  if conn.length < 14 then .wait
  else
    match conn with
    | magic :: status :: conn =>
      let (highWatermark, conn) := readInt64 conn
      let (msgCount, conn) := readNat 4 conn
      if magic ≠ 0xD0 then .emit (.error s!"invalid magic byte: {hex magic}") conn
      else if status = RespStatus.success.byte then
        (readMessages msgCount conn).map fun msgs => .messages msgs highWatermark
      else if status = RespStatus.redirect.byte then
        match conn with
        | [] => .wait
        | leaderLen :: conn =>
          if conn.length < leaderLen.toNat then .wait
          else .emit (.redirect (conn.take leaderLen.toNat)) (conn.drop leaderLen.toNat)
      else if status = RespStatus.error.byte then .emit (.error "server error") conn
      else .emit (.error (unknown status)) conn
    | _ => .wait

/-- The text of the group consumer names `header[1]`, which is the request's. -/
def readResponse : List UInt8 → Outcome FetchOutcome UInt8 :=
  readAnswer fun _ => s!"unknown response status: {hex 0x02}"

end Client.GoConsumer

/-- The consumer of a dead letter queue. -/
def Client.GoDlqConsumer.readResponse :
    List UInt8 → Outcome Client.GoConsumer.FetchOutcome UInt8 :=
  Client.GoConsumer.readAnswer fun status =>
    s!"unknown response status: {Client.GoConsumer.hex status}"

namespace Client.GoConsumer

open Broker

/-- A length that `MQDecoder` does not take for a negative one is the same in both. -/
theorem readInt32_nonneg {bytes : List UInt8} (h : ¬ (readInt32 bytes).1.toInt < 0) :
    (readInt32 bytes).1.toInt = (readNat 4 bytes).1 := by
  have hlt := readNat_lt 4 bytes
  have hbmod : (readInt32 bytes).1.toInt = Int.bmod (readNat 4 bytes).1 (2 ^ 32) := by
    show (Int32.ofNat (readNat 4 bytes).1).toInt = _
    rw [Int32.toInt_ofNat']
    rfl
  rw [hbmod] at h ⊢
  rw [Int.bmod_def] at h ⊢
  push_cast at h ⊢
  split at h
  · rename_i hsmall
    rw [if_pos hsmall]
    omega
  · omega

theorem readMessages_eq (n : ℕ) (conn : List UInt8) :
    MQDecoder.readMessages n conn = .fail ∨
      readMessages n conn = MQDecoder.readMessages n conn := by
  induction n generalizing conn with
  | zero => exact Or.inr rfl
  | succ n ih =>
    rw [MQDecoder.readMessages, readMessages]
    by_cases hshort : conn.length < 20
    · rw [if_pos hshort, if_pos hshort]
      exact Or.inr rfl
    rw [if_neg hshort, if_neg hshort]
    dsimp only
    generalize hbuf : (readInt64 (readInt64 conn).2).2 = buf
    have hrest : (readInt32 buf).2 = (readNat 4 buf).2 := rfl
    by_cases hneg : (readInt32 buf).1.toInt < 0
    -- a negative length: the Java client fails
    · refine Or.inl ?_
      rw [if_neg (by omega), if_pos hneg]
    · have hlen := readInt32_nonneg hneg
      rw [if_neg hneg, hrest, hlen, Int.toNat_natCast]
      by_cases hcut : (readNat 4 buf).2.length < (readNat 4 buf).1
      · rw [if_pos (Int.ofNat_lt.mpr hcut), if_pos hcut]
        exact Or.inr rfl
      · rw [if_neg (mt Int.ofNat_lt.mp hcut), if_neg hcut]
        rcases ih ((readNat 4 buf).2.drop (readNat 4 buf).1) with hfail | heq
        · rw [hfail]
          exact Or.inl rfl
        · rw [heq]
          exact Or.inr rfl

/-- What `fetch` makes of a response. -/
def outcome (r : FetchResponse) : FetchOutcome := .messages (r.messages.getD []) r.highWatermark

/-- **Two decoders.** On what begins like a success `fetch` reads what `MQDecoder` reads, unless
that fails. -/
theorem readResponse_eq_decode (unknown : UInt8 → String) (buf : List UInt8) :
    MQDecoder.decode (0xD0 :: RespStatus.success.byte :: buf) = .fail ∨
      readAnswer unknown (0xD0 :: RespStatus.success.byte :: buf) =
        (MQDecoder.decode (0xD0 :: RespStatus.success.byte :: buf)).map outcome := by
  have hmagic : ¬ (0xD0 : UInt8) ≠ 0xD0 := by decide
  have hmagic' : ¬ (0xD0 : UInt8) ≠ MQCommand.MAGIC := by decide
  have hstatus : RespStatus.success.byte = MQCommand.RESP_SUCCESS := rfl
  simp only [MQDecoder.decode, readAnswer, List.length_cons, if_neg hmagic, if_neg hmagic',
    if_pos hstatus, if_true]
  by_cases hshort : buf.length < 12
  · have hheader : buf.length + 1 + 1 < 14 := by omega
    rw [if_pos hshort, if_pos hheader]
    exact Or.inr rfl
  have hheader : ¬ buf.length + 1 + 1 < 14 := by omega
  rw [if_neg hshort, if_neg hheader]
  by_cases hneg : (readInt32 (readInt64 buf).2).1.toInt < 0
  · exact Or.inl (if_pos hneg)
  · rw [if_neg hneg, readInt32_nonneg hneg, Int.toNat_natCast]
    have hrest : (readInt32 (readInt64 buf).2).2 = (readNat 4 (readInt64 buf).2).2 := rfl
    rw [hrest]
    rcases readMessages_eq (readNat 4 (readInt64 buf).2).1 (readNat 4 (readInt64 buf).2).2 with
      hfail | heq
    · rw [hfail]
      exact Or.inl rfl
    · rw [heq]
      refine Or.inr ?_
      cases MQDecoder.readMessages (readNat 4 (readInt64 buf).2).1
        (readNat 4 (readInt64 buf).2).2 <;> rfl

/-- **Successes** are read as they were written. -/
theorem readResponse_delimits (unknown : UInt8 → String) :
    Delimits (readAnswer unknown) FetchAnswer.bytes (fun a => outcome a.response)
      fun a => a.Sized ∧ ∃ msgs highWatermark, a = .ok msgs highWatermark where
  ne_nil := by
    rintro _ ⟨-, msgs, highWatermark, rfl⟩
    exact List.cons_ne_nil _ _
  whole := by
    rintro _ ⟨hsized, msgs, highWatermark, rfl⟩ rest
    have hdecode := decode_delimits.whole _ hsized rest
    rcases readResponse_eq_decode unknown (putInt64 highWatermark ++
      (putInt32 (Int32.ofNat msgs.length) ++ msgs.flatMap entryBuf) ++ rest) with hfail | heq
    · exact absurd (hdecode.symm.trans hfail) nofun
    · exact heq.trans (congrArg (Outcome.map outcome) hdecode)
  cut := by
    rintro _ ⟨hsized, msgs, highWatermark, rfl⟩ part hpart hne hnil
    have hdecode := decode_delimits.cut _ hsized part hpart hne hnil
    by_cases hshort : part.length < 2
    · exact if_pos (by omega)
    obtain ⟨buf, rfl, -⟩ := exists_of_prefix_append hpart (Nat.le_of_not_lt hshort)
    rcases readResponse_eq_decode unknown buf with hfail | heq
    · exact absurd (hdecode.symm.trans hfail) nofun
    · exact heq.trans (congrArg (Outcome.map outcome) hdecode)

/-- After an error of the broker `fetch` waits, whatever part of it has arrived. -/
theorem readAnswer_error (unknown : UInt8 → String) {part : List UInt8}
    (h : part <+: FetchAnswer.error.bytes) : readAnswer unknown part = .wait := by
  have hlen := h.length_le
  have htwo : FetchAnswer.error.bytes.length = 2 := rfl
  exact if_pos (by omega)

end Client.GoConsumer

end DistributedMQ
