import DistributedMQ.Broker.AccessPaths
import DistributedMQ.Lib.Framing

/-!
# Responses on the wire (`MQDecoder.java` and `broker.go` lines 966–1039)

The broker answers a fetch with the messages, and everything else with `sendResponse`. The
Java client reads both with one decoder, which goes by the status byte alone. Netty's
`ByteToMessageDecoder` calls it whenever bytes have arrived, as long as responses come out
(`Framing.feed`).

- `fetch_answers_survive_chunks`: answers to fetches come out as they were written, however
  the stream is cut.
- `decodes_iff`: what `sendResponse` writes comes out only if it reports no success, and a
  redirect only if it names a leader of less than 256 bytes.
-/

namespace DistributedMQ

open Naming BigEndian Framing

namespace Client

namespace MQCommand

def MAGIC : UInt8 := 0xD0

def CMD_PRODUCE : UInt8 := 0x01

def RESP_SUCCESS : UInt8 := 0x00

def RESP_REDIRECT : UInt8 := 0x01

def RESP_ERROR : UInt8 := 0xFF

end MQCommand

/-- What the decoder sets of a message. -/
structure MQMessage where
  offset : Int64
  timestamp : Int64
  data : List UInt8
deriving DecidableEq

/-- The fields that are not set have Java's defaults. -/
structure FetchResponse where
  status : UInt8
  highWatermark : Int64 := 0
  messageCount : Int32 := 0
  messages : Option (List MQMessage) := none
  /-- The bytes the string is made from. -/
  redirectLeader : Option ByteString := none
deriving DecidableEq

namespace MQDecoder

open MQCommand

/-- The loop of `decode` over the messages, with as many to come. A negative `dataLen` makes
`new byte[dataLen]` throw. -/
def readMessages : ℕ → List UInt8 → Outcome (List MQMessage) UInt8
  | 0, buf => .emit [] buf
  | n + 1, buf =>
    if buf.length < 20 then .wait
    else
      let (offset, buf) := readInt64 buf
      let (timestamp, buf) := readInt64 buf
      let (dataLen, buf) := readInt32 buf
      if (buf.length : ℤ) < dataLen.toInt then .wait
      else if dataLen.toInt < 0 then .fail
      else
        let data := buf.take dataLen.toInt.toNat
        (readMessages n (buf.drop dataLen.toInt.toNat)).map fun messages =>
          { offset, timestamp, data } :: messages

/-- `decode`. Where it returns without a response the reader index is back at the magic byte.
A negative `msgCount` makes `new ArrayList<>(msgCount)` throw. -/
def decode : List UInt8 → Outcome FetchResponse UInt8
  | magic :: status :: buf =>
    if magic ≠ MAGIC then .wait
    else if status = RESP_SUCCESS then
      if buf.length < 12 then .wait
      else
        let (highWatermark, buf) := readInt64 buf
        let (msgCount, buf) := readInt32 buf
        if msgCount.toInt < 0 then .fail
        else
          (readMessages msgCount.toInt.toNat buf).map fun messages =>
            { status, highWatermark, messageCount := msgCount, messages := some messages }
    else if status = RESP_REDIRECT then
      match buf with
      | [] => .wait
      | leaderLen :: buf =>
        if buf.length < leaderLen.toNat then .wait
        else
          .emit { status, redirectLeader := some (buf.take leaderLen.toNat) }
            (buf.drop leaderLen.toNat)
    else .emit { status } buf
  | _ => .wait

end MQDecoder

end Client

namespace Broker

open Client

/-! ## What the broker writes -/

/-- A message in the answer to a fetch. -/
def entryBuf (msg : MQMessage) : List UInt8 :=
  putInt64 msg.offset ++ (putInt64 msg.timestamp ++
    (putInt32 (Int32.ofNat msg.data.length) ++ msg.data))

/-- What `handleTCPFetch` answers. -/
inductive FetchAnswer where
  | ok (msgs : List MQMessage) (highWatermark : Int64)
  | error

/-- The bytes `sendResponse` writes for these arguments. -/
def respBuf (status : UInt8) (leader : ByteString) (offset : Int64) : List UInt8 :=
  [0xD0, status] ++
    (if status = RespStatus.redirect.byte ∧ leader ≠ [] then UInt8.ofNat leader.length :: leader
    else []) ++
    (if status = RespStatus.success.byte then putInt64 offset else [])

namespace FetchAnswer

/-- The bytes of an answer. -/
def bytes : FetchAnswer → List UInt8
  | ok msgs highWatermark =>
    [0xD0, RespStatus.success.byte] ++ (putInt64 highWatermark ++
      (putInt32 (Int32.ofNat msgs.length) ++ msgs.flatMap entryBuf))
  | error => respBuf RespStatus.error.byte [] 0

/-- The count and the sizes fit in 31 bits. -/
def Sized : FetchAnswer → Prop
  | ok msgs _ => msgs.length < 2 ^ 31 ∧ ∀ msg ∈ msgs, msg.data.length < 2 ^ 31
  | error => True

/-- The answer as a response. -/
def response : FetchAnswer → FetchResponse
  | ok msgs highWatermark =>
    { status := RespStatus.success.byte, highWatermark, messageCount := Int32.ofNat msgs.length,
      messages := some msgs }
  | error => { status := RespStatus.error.byte }

end FetchAnswer

/-- A message of the store, with numbers of 64 bits. -/
def Message.toMQMessage (msg : Message) : MQMessage where
  offset := Int64.ofNat msg.offset
  timestamp := Int64.ofNat msg.timestamp
  data := msg.value

theorem entryBuf_toMQMessage (msg : Message) : entryBuf msg.toMQMessage = msg.bytes := by
  simp only [entryBuf, Message.toMQMessage, Message.bytes, putInt64_ofNat, putInt32_ofNat,
    List.append_assoc]

/-- The answer to a fetch on a store is one of these. -/
theorem FetchResult.bytes_eq_answer (msgs : List Message) (highWatermark : ℕ) :
    (FetchResult.ok msgs highWatermark).bytes =
      (FetchAnswer.ok (msgs.map Message.toMQMessage) (Int64.ofNat highWatermark)).bytes := by
  have hmsgs : (msgs.map Message.toMQMessage).flatMap entryBuf = msgs.flatMap Message.bytes := by
    rw [List.flatMap_map]
    exact List.flatMap_congr fun msg _ => entryBuf_toMQMessage msg
  simp only [FetchResult.bytes, FetchAnswer.bytes, hmsgs, putInt64_ofNat, putInt32_ofNat,
    List.length_map, List.append_assoc]

theorem putUint64_eq_encode (n : ℕ) : putUint64 n = encode 8 n := by
  simp only [putUint64, encode, List.map_cons, List.map_nil, Nat.div_div_eq_div_mul,
    List.nil_append, List.cons_append]
  norm_num

theorem length_toList_loop (bs : ByteArray) (i : ℕ) (r : List UInt8) :
    (ByteArray.toList.loop bs i r).length = r.length + (bs.size - i) := by
  fun_induction ByteArray.toList.loop bs i r with
  | case1 i r hlt ih =>
    rw [ih, List.length_cons]
    omega
  | case2 i r hge =>
    rw [List.length_reverse]
    omega

theorem length_toUTF8 (s : String) : s.toUTF8.toList.length = s.utf8ByteSize := by
  rw [ByteArray.toList, length_toList_loop, List.length_nil, Nat.zero_add, Nat.sub_zero]
  rfl

theorem toUTF8_ne_nil_iff (s : String) : s.toUTF8.toList ≠ [] ↔ s ≠ "" := by
  rw [← List.length_pos_iff, length_toUTF8, Nat.pos_iff_ne_zero, ne_eq, ne_eq,
    String.utf8ByteSize_eq_zero_iff]

/-- The responses of `handleTCPProduce` are among those. -/
theorem sendResponse_eq_respBuf (resp : Response) :
    sendResponse resp =
      respBuf resp.status.byte resp.leader.toUTF8.toList (Int64.ofNat resp.offset) := by
  have hredirect : resp.status.byte = RespStatus.redirect.byte ↔ resp.status = .redirect := by
    cases resp.status <;> decide
  have hsuccess : resp.status.byte = RespStatus.success.byte ↔ resp.status = .success := by
    cases resp.status <;> decide
  simp only [sendResponse, respBuf, hredirect, hsuccess, toUTF8_ne_nil_iff, length_toUTF8,
    putInt64_ofNat, putUint64_eq_encode]

end Broker

namespace Client

open Broker
open MQDecoder hiding decode

/-! ## Fetches -/

theorem length_putInt64 (x : Int64) : (putInt64 x).length = 8 := length_encode 8 _

theorem length_putInt32 (x : Int32) : (putInt32 x).length = 4 := length_encode 4 _

/-- A length of 31 bits is read as it was written. -/
theorem toInt_ofNat_of_lt {n : ℕ} (h : n < 2 ^ 31) : (Int32.ofNat n).toInt = n :=
  Int32.toInt_ofNat_of_lt h

/-- The part of a message in front of its data. -/
def entryHeader (msg : MQMessage) : List UInt8 :=
  putInt64 msg.offset ++ (putInt64 msg.timestamp ++ putInt32 (Int32.ofNat msg.data.length))

theorem length_entryHeader (msg : MQMessage) : (entryHeader msg).length = 20 := by
  simp only [entryHeader, List.length_append, length_putInt64, length_putInt32]

theorem entryBuf_eq (msg : MQMessage) : entryBuf msg = entryHeader msg ++ msg.data := by
  simp only [entryBuf, entryHeader, List.append_assoc]

/-- What the loop does behind the header of a message. -/
theorem readMessages_header {msg : MQMessage} (hmsg : msg.data.length < 2 ^ 31) (n : ℕ)
    (buf : List UInt8) :
    readMessages (n + 1) (entryHeader msg ++ buf) =
      if buf.length < msg.data.length then .wait
      else
        (readMessages n (buf.drop msg.data.length)).map
          ({ msg with data := buf.take msg.data.length } :: ·) := by
  have hlen : ¬ (entryHeader msg ++ buf).length < 20 := by
    rw [List.length_append, length_entryHeader]
    omega
  have hdataLen := toInt_ofNat_of_lt hmsg
  have hnonneg : ¬ (msg.data.length : ℤ) < 0 := by omega
  rw [readMessages, if_neg hlen]
  simp only [entryHeader, List.append_assoc, readInt64_put, readInt32_put, hdataLen,
    Int.toNat_natCast, Nat.cast_lt, if_neg hnonneg]

theorem readMessages_whole {msgs : List MQMessage}
    (hmsgs : ∀ msg ∈ msgs, msg.data.length < 2 ^ 31) (rest : List UInt8) :
    readMessages msgs.length (msgs.flatMap entryBuf ++ rest) = .emit msgs rest := by
  induction msgs with
  | nil => rfl
  | cons msg msgs ih =>
    obtain ⟨hmsg, hmsgs⟩ := List.forall_mem_cons.mp hmsgs
    have hlen : ¬ (msg.data ++ (msgs.flatMap entryBuf ++ rest)).length < msg.data.length := by
      rw [List.length_append]
      omega
    rw [List.flatMap_cons, entryBuf_eq, List.append_assoc, List.append_assoc, List.length_cons,
      readMessages_header hmsg, if_neg hlen, List.drop_left, List.take_left, ih hmsgs]
    rfl

theorem readMessages_cut {msgs : List MQMessage}
    (hmsgs : ∀ msg ∈ msgs, msg.data.length < 2 ^ 31) {part : List UInt8}
    (hpart : part <+: msgs.flatMap entryBuf) (hne : part ≠ msgs.flatMap entryBuf) :
    readMessages msgs.length part = .wait := by
  induction msgs generalizing part with
  | nil => exact absurd (List.prefix_nil.mp hpart) hne
  | cons msg msgs ih =>
    obtain ⟨hmsg, hmsgs⟩ := List.forall_mem_cons.mp hmsgs
    rw [List.flatMap_cons, entryBuf_eq, List.append_assoc] at hpart hne
    by_cases hheader : part.length < 20
    · rw [List.length_cons, readMessages, if_pos hheader]
    · -- the header is there
      obtain ⟨buf, rfl, hbuf⟩ := exists_of_prefix_append hpart
        (by rw [length_entryHeader]; omega)
      rw [List.length_cons, readMessages_header hmsg]
      split
      · rfl
      · -- the data is there, too, so a later message is cut
        rename_i hdata
        obtain ⟨later, rfl, hlater⟩ := exists_of_prefix_append hbuf (by omega)
        rw [List.drop_left, ih hmsgs hlater (fun heq => hne (by rw [heq]))]
        rfl

theorem decode_of_short {part : List UInt8} (h : part.length < 2) :
    MQDecoder.decode part = .wait := by
  cases part with
  | nil => rfl
  | cons magic part =>
    cases part with
    | nil => rfl
    | cons status buf =>
      rw [List.length_cons, List.length_cons] at h
      omega

theorem decode_success (buf : List UInt8) (hbuf : buf.length < 12) :
    MQDecoder.decode ([0xD0, RespStatus.success.byte] ++ buf) = .wait := by
  show (if buf.length < 12 then Outcome.wait else _) = _
  rw [if_pos hbuf]

/-- What `decode` does behind the header of a success. -/
theorem decode_header {n : ℕ} (hn : n < 2 ^ 31) (highWatermark : Int64) (buf : List UInt8) :
    MQDecoder.decode ([0xD0, RespStatus.success.byte] ++ (putInt64 highWatermark ++
        (putInt32 (Int32.ofNat n) ++ buf))) =
      (readMessages n buf).map fun messages =>
        { status := RespStatus.success.byte, highWatermark, messageCount := Int32.ofNat n,
          messages := some messages } := by
  have hlen : ¬ (putInt64 highWatermark ++ (putInt32 (Int32.ofNat n) ++ buf)).length < 12 := by
    rw [List.length_append, List.length_append, length_putInt64, length_putInt32]
    omega
  have hcount := toInt_ofNat_of_lt hn
  have hnonneg : ¬ (n : ℤ) < 0 := by omega
  have hmagic : ¬ (0xD0 : UInt8) ≠ MQCommand.MAGIC := by decide
  have hstatus : RespStatus.success.byte = MQCommand.RESP_SUCCESS := rfl
  simp only [MQDecoder.decode, List.cons_append, List.nil_append, if_neg hmagic, if_pos hstatus,
    if_neg hlen, readInt64_put, readInt32_put, hcount,
    Int.toNat_natCast, if_neg hnonneg]

theorem decode_ok_cut {msgs : List MQMessage} {highWatermark : Int64}
    (hsized : (FetchAnswer.ok msgs highWatermark).Sized) {part : List UInt8}
    (hpart : part <+: (FetchAnswer.ok msgs highWatermark).bytes)
    (hne : part ≠ (FetchAnswer.ok msgs highWatermark).bytes) :
    MQDecoder.decode part = .wait := by
  by_cases hshort : part.length < 2
  · exact decode_of_short hshort
  -- magic byte and status are there
  obtain ⟨buf, rfl, hbuf⟩ := exists_of_prefix_append hpart (Nat.le_of_not_lt hshort)
  by_cases hlen : buf.length < 12
  · exact decode_success buf hlen
  -- the high watermark and the count are there, so a message is cut
  rw [← List.append_assoc] at hbuf
  obtain ⟨later, rfl, hlater⟩ := exists_of_prefix_append hbuf (by
    rw [List.length_append, length_putInt64, length_putInt32]
    omega)
  rw [List.append_assoc, decode_header hsized.1, readMessages_cut hsized.2 hlater]
  · rfl
  · intro heq
    refine hne ?_
    rw [heq, FetchAnswer.bytes, List.append_assoc]

/-- The decoder takes an answer to a fetch off the stream once all of it is there. -/
theorem decode_delimits :
    Delimits MQDecoder.decode FetchAnswer.bytes FetchAnswer.response FetchAnswer.Sized where
  ne_nil a _ := by cases a <;> exact List.cons_ne_nil _ _
  whole a ha rest := by
    cases a with
    | ok msgs highWatermark =>
      rw [FetchAnswer.bytes, List.append_assoc, List.append_assoc, List.append_assoc,
        decode_header ha.1, readMessages_whole ha.2]
      rfl
    | error => rfl
  cut a ha part hpart hne _ := by
    cases a with
    | ok msgs highWatermark => exact decode_ok_cut ha hpart hne
    | error =>
      refine decode_of_short (Nat.lt_of_not_le fun hlen => hne ?_)
      exact hpart.eq_of_length_le hlen

/-- **Fetches.** However the answers to fetches are cut into chunks, the client gets exactly
these answers; and after any number of chunks it has those of which every byte is there. -/
theorem fetch_answers_survive_chunks (answers : List FetchAnswer)
    (hsized : ∀ a ∈ answers, a.Sized) (chunks : List (List UInt8))
    (hchunks : chunks.flatten = answers.flatMap FetchAnswer.bytes) :
    chunks.foldl (feed MQDecoder.decode) ([], some []) =
        (answers.map FetchAnswer.response, some []) ∧
      ∀ i, ∃ k rest, Arrived FetchAnswer.bytes answers (chunks.take i).flatten k rest ∧
        (chunks.take i).foldl (feed MQDecoder.decode) ([], some []) =
          ((answers.take k).map FetchAnswer.response, some rest) := by
  constructor
  · obtain ⟨k, rest, harrived, hfold⟩ :=
      feed_eq decode_delimits hsized (by rw [hchunks])
    rw [hchunks] at harrived
    have hk := harrived.eq_length
    rw [hfold, hk, List.take_length, harrived.last hk]
  · intro i
    refine feed_eq decode_delimits hsized ?_
    rw [← hchunks]
    exact (List.take_prefix i chunks).flatten

/-- An answer with a message and an error. -/
def twoAnswers : List FetchAnswer := [.ok [⟨3, 9, [7, 8]⟩] 5, .error]

/-- The first chunk ends in the data of the message. -/
theorem fetch_answers_survive_chunks_twoAnswers :
    [(twoAnswers.flatMap FetchAnswer.bytes).take 35,
        (twoAnswers.flatMap FetchAnswer.bytes).drop 35].foldl (feed MQDecoder.decode)
        ([], some []) =
      (twoAnswers.map FetchAnswer.response, some []) := by
  refine (fetch_answers_survive_chunks twoAnswers ?_ _ ?_).1
  · intro a ha
    rcases List.mem_pair.mp ha with rfl | rfl
    · exact ⟨by decide, List.forall_mem_singleton.mpr (by decide)⟩
    · trivial
  · rw [List.flatten_cons, List.flatten_singleton, List.take_append_drop]

/-! ## Other responses -/

/-- Of the bytes of a response exactly one response comes out, with this status and, if it is
a redirect, this leader; and no byte is left. -/
def Decodes (status : UInt8) (leader : ByteString) (offset : Int64) : Prop :=
  ∃ r, feed MQDecoder.decode ([], some []) (respBuf status leader offset) = ([r], some []) ∧
    r.status = status ∧ (status = MQCommand.RESP_REDIRECT → r.redirectLeader = some leader)

theorem decodes_iff_decode {status : UInt8} {leader : ByteString} {offset : Int64} :
    Decodes status leader offset ↔
      ∃ r, MQDecoder.decode (respBuf status leader offset) = .emit r [] ∧
        r.status = status ∧ (status = MQCommand.RESP_REDIRECT → r.redirectLeader = some leader) := by
  have hne : respBuf status leader offset ≠ [] := List.cons_ne_nil _ _
  refine exists_congr fun r => and_congr_left fun _ => ?_
  exact drain_eq_singleton_iff hne

theorem decode_redirect (leader : ByteString) (hleader : leader ≠ []) (offset : Int64) :
    MQDecoder.decode (respBuf MQCommand.RESP_REDIRECT leader offset) =
      .emit { status := MQCommand.RESP_REDIRECT,
              redirectLeader := some (leader.take (leader.length % 256)) }
        (leader.drop (leader.length % 256)) := by
  have hbuf : respBuf MQCommand.RESP_REDIRECT leader offset =
      0xD0 :: 0x01 :: UInt8.ofNat leader.length :: leader := by
    rw [respBuf, if_pos ⟨rfl, hleader⟩, if_neg (by decide)]
    exact List.append_nil _
  have hlen : (UInt8.ofNat leader.length).toNat = leader.length % 256 := UInt8.toNat_ofNat'
  have hle : ¬ leader.length < leader.length % 256 := Nat.not_lt.mpr (Nat.mod_le _ _)
  rw [hbuf]
  show (if leader.length < (UInt8.ofNat leader.length).toNat then Outcome.wait else _) = _
  rw [hlen, if_neg hle]
  rfl

theorem decode_other {status : UInt8} (hsuccess : status ≠ MQCommand.RESP_SUCCESS)
    (hredirect : status ≠ MQCommand.RESP_REDIRECT) (leader : ByteString) (offset : Int64) :
    MQDecoder.decode (respBuf status leader offset) = .emit { status } [] := by
  have hbuf : respBuf status leader offset = [0xD0, status] := by
    have hbyte : status ≠ RespStatus.success.byte := hsuccess
    rw [respBuf, if_neg fun h => hredirect h.1, if_neg hbyte]
    rfl
  have hmagic : ¬ (0xD0 : UInt8) ≠ MQCommand.MAGIC := by decide
  rw [hbuf]
  simp only [MQDecoder.decode, if_neg hmagic, if_neg hsuccess, if_neg hredirect]

/-- **Other responses.** What `sendResponse` writes is decoded iff it is not a success, whose
offset the decoder takes for the start of the answer to a fetch, and, for a redirect, there is
a leader whose length fits in the byte for it. -/
theorem decodes_iff (status : UInt8) (leader : ByteString) (offset : Int64) :
    Decodes status leader offset ↔
      status ≠ MQCommand.RESP_SUCCESS ∧
        (status = MQCommand.RESP_REDIRECT → leader ≠ [] ∧ leader.length < 256) := by
  rw [decodes_iff_decode]
  by_cases hsuccess : status = MQCommand.RESP_SUCCESS
  · subst hsuccess
    have hwait : MQDecoder.decode (respBuf MQCommand.RESP_SUCCESS leader offset) = .wait :=
      decode_success (putInt64 offset) (by rw [length_putInt64]; decide)
    simp [hwait]
  by_cases hredirect : status = MQCommand.RESP_REDIRECT
  · subst hredirect
    by_cases hleader : leader = []
    · subst hleader
      have hwait : MQDecoder.decode (respBuf MQCommand.RESP_REDIRECT [] offset) = .wait := rfl
      simp [hwait]
    · rw [decode_redirect leader hleader]
      constructor
      · rintro ⟨r, hr, -, -⟩
        have hlen := List.drop_eq_nil_iff.mp (Outcome.emit.inj hr).2
        exact ⟨hsuccess, fun _ => ⟨hleader, by omega⟩⟩
      · rintro ⟨-, h⟩
        obtain ⟨-, hlen⟩ := h rfl
        rw [Nat.mod_eq_of_lt hlen, List.take_length, List.drop_length]
        exact ⟨_, rfl, rfl, fun _ => rfl⟩
  · simp [decode_other hsuccess hredirect, hsuccess, hredirect]

/-- The answer to a produce request that has been accepted at index 1 leaves the client
waiting. -/
theorem success_not_decoded :
    ¬ Decodes RespStatus.success.byte [] 1 ∧
      feed MQDecoder.decode ([], some []) (sendResponse { status := .success, offset := 1 }) =
        ([], some [0xD0, 0, 0, 0, 0, 0, 0, 0, 0, 1]) := by
  constructor
  · rw [decodes_iff_decode]
    rintro ⟨r, hr, -⟩
    have hwait : MQDecoder.decode (respBuf RespStatus.success.byte [] 1) = .wait := rfl
    rw [hwait] at hr
    cases hr
  · decide +kernel

end Client

end DistributedMQ
