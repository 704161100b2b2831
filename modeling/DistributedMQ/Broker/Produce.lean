import DistributedMQ.Raft.Process

/-!
# Produce requests (`broker.go` lines 914–964 and 1022–1056)

`handleTCPProduce` runs in a goroutine of its own for every request. It asks
the name server for the partition's leader, asks the Raft node whether it leads,
submits the message and, for `acks = -1`, waits for the commit channel or five
seconds. `Phase` says where a handler stands between two such points; the
answers of the name server and the timer are inputs.

A handler also carries what the source does not keep: the log entry that was
created for its request, and whether the commit index has reached that entry in
the log before the answer (`Handler.committed`, updated after every step by
`BrokerProc.observe`).
-/

namespace DistributedMQ.Broker

open Raft

/-- The status byte of a response. -/
inductive RespStatus where
  | success
  | redirect
  | error
deriving DecidableEq, Repr

/-- The constants `RespSuccess`, `RespRedirect` and `RespError`. -/
def RespStatus.byte : RespStatus → UInt8
  | .success => 0x00
  | .redirect => 0x01
  | .error => 0xFF

/-- The arguments of `sendResponse`. -/
structure Response where
  status : RespStatus
  leader : String := ""
  offset : ℕ := 0
deriving DecidableEq, Repr

/-- The eight bytes `binary.BigEndian.PutUint64` writes. -/
def putUint64 (n : ℕ) : List UInt8 :=
  [56, 48, 40, 32, 24, 16, 8, 0].map fun shift => UInt8.ofNat (n / 2 ^ shift)

/-- The bytes `sendResponse` writes to the connection. -/
def sendResponse (resp : Response) : List UInt8 :=
  [0xD0, resp.status.byte] ++
    (if resp.status = .redirect ∧ resp.leader ≠ "" then
      UInt8.ofNat resp.leader.utf8ByteSize :: resp.leader.toUTF8.toList
    else []) ++
    (if resp.status = .success then putUint64 resp.offset else [])

/-- The arguments of `handleTCPProduce`. -/
structure ProduceRequest where
  topic : String
  partition : ℤ
  data : List UInt8
deriving DecidableEq, Repr

/-- The first byte of the data as an `int8`; 1 if there is none. -/
def ProduceRequest.acks (req : ProduceRequest) : Int8 :=
  match req.data with
  | [] => 1
  | b :: _ => b.toInt8

/-- The message behind the `acks` byte. -/
def ProduceRequest.msgData (req : ProduceRequest) : List UInt8 := req.data.tail

/-- Where a handler stands. -/
inductive Phase where
  /-- Before the first `GetPartitionLeader`. -/
  | lookup
  /-- The name server has named this broker; before `IsPartitionLeader`. -/
  | named (leader : String)
  /-- The Raft node does not lead; before the second `GetPartitionLeader`. -/
  | demoted (leader : String)
  /-- Before `SubmitCommand`. -/
  | submit
  /-- In the `select` of a request with `acks = -1`. -/
  | waiting (index : ℕ) (commitCh : ℕ)
  | answered (resp : Response)
deriving DecidableEq

/-- A running or finished `handleTCPProduce`. -/
structure Handler where
  req : ProduceRequest
  phase : Phase
  /-- Index and content of the entry created for the request. -/
  created : Option (ℕ × LogEntry) := none
  /-- Before the answer the commit index has reached the entry in the log. -/
  committed : Bool := false

/-- A broker with its Raft process. -/
structure BrokerProc where
  clientAddr : String
  raft : Proc
  handlers : List Handler

inductive BrokerEvent where
  /-- A critical section of the Raft process. -/
  | raft (ev : Event)
  /-- `handleClient` reads a produce request. -/
  | produce (req : ProduceRequest)
  /-- The first `GetPartitionLeader` of a handler returns; `none` is an error. -/
  | lookup (k : ℕ) (leader : Option String)
  /-- `IsPartitionLeader` of a handler. -/
  | isPartitionLeader (k : ℕ)
  /-- The second `GetPartitionLeader` of a handler returns. -/
  | lookupAgain (k : ℕ) (leader : Option String)
  /-- `SubmitCommand` of a handler. -/
  | submit (k : ℕ)
  /-- The commit channel of a handler is closed. -/
  | commitClosed (k : ℕ)
  /-- Five seconds have passed. -/
  | timeout (k : ℕ)

namespace Handler

/-- The answer is sent. -/
def answer (h : Handler) (resp : Response) : Handler := { h with phase := .answered resp }

/-- The first lookup: a broker the name server does not name redirects. -/
def onLookup (h : Handler) (clientAddr : String) : Option String → Handler
  | none => h.answer { status := .error }
  | some leader =>
    if leader = clientAddr then { h with phase := .named leader }
    else h.answer { status := .redirect, leader := leader }

/-- The second lookup: redirect to the leader it names, else to the first one. -/
def onLookupAgain (h : Handler) (leader : String) : Option String → Handler
  | none => h.answer { status := .redirect, leader := leader }
  | some newLeader => h.answer { status := .redirect, leader := newLeader }

/-- What follows `SubmitCommand`. -/
def onSubmit (h : Handler) (entry : LogEntry) : Except String (ℕ × ℕ) → Handler
  | .error _ => h.answer { status := .error }
  | .ok (index, ch) =>
    { h with
      created := some (index, entry)
      phase :=
        if h.req.acks = -1 then .waiting index ch
        else .answered { status := .success, offset := index } }

/-- The commit index has reached the handler's entry in the log of `r`. -/
def Reached (r : RaftNode) (h : Handler) : Prop :=
  ∃ ne ∈ h.created, r.log.elems[ne.1]? = some ne.2 ∧ ne.1 ≤ r.commitIndex

instance (r : RaftNode) (h : Handler) : Decidable (h.Reached r) :=
  inferInstanceAs (Decidable (∃ ne ∈ h.created, _))

/-- Record it, until the answer is out. -/
def observe (r : RaftNode) (h : Handler) : Handler :=
  match h.phase with
  | .answered _ => h
  | _ => if h.Reached r then { h with committed := true } else h

end Handler

namespace BrokerProc

variable [GrowthPolicy]

/-- A broker as it starts: its Raft node comes from `NewRaftNode` and nobody is
served yet. -/
def boot (clientAddr selfAddr : String) (peers : List String) (dataDir : String) (disk : Disk) :
    BrokerProc where
  clientAddr := clientAddr
  raft := Proc.boot selfAddr peers dataDir disk
  handlers := []

/-- Handler `k` becomes `h`. -/
def setHandler (b : BrokerProc) (k : ℕ) (h : Handler) : BrokerProc :=
  { b with handlers := b.handlers.set k h }

/-- Let handler `k` take a step. -/
def withHandler (b : BrokerProc) (k : ℕ) (f : Handler → Option BrokerProc) : Option BrokerProc :=
  match b.handlers[k]? with
  | some h => f h
  | none => none

/-- What an event does, before the history variables are updated. -/
def fire (b : BrokerProc) : BrokerEvent → Option BrokerProc
  | .raft ev =>
    match b.raft.step ev with
    | some (p, _) => some { b with raft := p }
    | none => none
  | .produce req => some { b with handlers := b.handlers ++ [{ req := req, phase := .lookup }] }
  | .lookup k leader => b.withHandler k fun h =>
    match h.phase with
    | .lookup => some (b.setHandler k (h.onLookup b.clientAddr leader))
    | _ => none
  | .isPartitionLeader k => b.withHandler k fun h =>
    match h.phase with
    | .named leader =>
      some (b.setHandler k
        { h with phase := if b.raft.node.state = .leader then .submit else .demoted leader })
    | _ => none
  | .lookupAgain k newLeader => b.withHandler k fun h =>
    match h.phase with
    | .demoted leader => some (b.setHandler k (h.onLookupAgain leader newLeader))
    | _ => none
  | .submit k => b.withHandler k fun h =>
    match h.phase with
    | .submit =>
      let entry := b.raft.node.commandEntry h.req.topic h.req.partition h.req.msgData
      let res := b.raft.node.submitCommand h.req.topic h.req.partition h.req.msgData
      some ({ b with raft := { b.raft with node := res.1 } }.setHandler k
        (h.onSubmit entry res.2))
    | _ => none
  | .commitClosed k => b.withHandler k fun h =>
    match h.phase with
    | .waiting index ch =>
      if ch ∈ b.raft.node.chansClosed then
        some (b.setHandler k (h.answer { status := .success, offset := index }))
      else none
    | _ => none
  | .timeout k => b.withHandler k fun h =>
    match h.phase with
    | .waiting _ _ => some (b.setHandler k (h.answer { status := .error }))
    | _ => none

/-- Update the history variables. -/
def observe (b : BrokerProc) : BrokerProc :=
  { b with handlers := b.handlers.map (Handler.observe b.raft.node) }

/-- One step of a live broker; a panic of the Raft process takes it down. -/
def step (b : BrokerProc) (ev : BrokerEvent) : Option BrokerProc :=
  if b.raft.alive then (b.fire ev).map observe else none

end BrokerProc

end DistributedMQ.Broker
