import DistributedMQ.Broker.AccessPaths
import DistributedMQ.NameServer.Offsets
import DistributedMQ.NameServer.Placement

/-!
# Routes and redirects (`nameserver.go` lines 301–365 and 391–397, `broker.go` lines 553–569,
914–934 and 1041–1055)

A broker accepts a produce request if the name server names it as the leader and its Raft node
leads. `GetPartitionLeader` has a partition but does not send it; without a partition and a key
`handleRoute` answers for partition 0. If the name server names this broker and the Raft node does
not lead, the broker asks again and redirects to whatever the answer is.

What `net/http` makes of the query, which is put together without escaping, is a parameter; plain
names pass unchanged.

- `handleRoute_found`: a request without a partition finds one in every topic that was created.
- `key_routed`: from the creation of a topic on, every key is sent to one of its partitions.
- `leader_check_iff`: the check is about partition 0, whatever partition the request is for.
- `redirect_elsewhere_iff`: a broker redirects to itself if the name server goes on naming it.
-/

namespace DistributedMQ

open Naming

namespace NameServer

/-- The fields of a route request; one that is missing is empty. -/
structure RouteForm where
  topic : ByteString
  partition : ByteString := []
  key : ByteString := []
deriving DecidableEq

/-- `hashString`, in 64 bits. -/
def hashString (s : ByteString) : Int64 := s.foldl (fun h b => 31 * h + Int64.ofNat b.toNat) 0

/-- The partition a key is sent to. `%` has the sign of the hash. -/
def partitionOfKey (key : ByteString) (count : ℕ) : ℤ :=
  let partitionID := (hashString key).toInt.tmod count
  if partitionID < 0 then -partitionID else partitionID

/-- `topicInfo.Partitions[partitionID]`. -/
def TopicInfo.partition? (info : TopicInfo) (partitionID : ℤ) : Option PartitionInfo :=
  if partitionID < 0 then none else info.partitions.lookup partitionID.toNat

/-- The answer to a route request. -/
structure RouteAnswer where
  topic : ByteString
  partition : ℤ
  leader : String
  replicas : List String
  isr : List String
deriving DecidableEq

namespace NameServerState

/-- The partition a request asks for; `none` is an error of `strconv.Atoi`. -/
def askedPartition (info : TopicInfo) (form : RouteForm) : Option ℤ :=
  if form.partition ≠ [] then parseInt form.partition
  else if form.key ≠ [] then some (partitionOfKey form.key info.partitions.len)
  else some 0

/-- `handleRoute`. -/
def handleRoute (n : NameServerState) (form : RouteForm) : Except String RouteAnswer :=
  if form.topic = [] then .error "topic is required"
  else
    match n.topics.lookup (text form.topic) with
    | none => .error "topic not found"
    | some info =>
      if info.partitions.len = 0 then .error "no partitions available"
      else
        match askedPartition info form with
        | none => .error "invalid partition"
        | some partitionID =>
          match info.partition? partitionID with
          | none => .error "partition not found"
          | some partitionInfo =>
            .ok { topic := form.topic
                  partition := partitionID
                  leader := partitionInfo.leader
                  replicas := partitionInfo.replicas
                  isr := partitionInfo.isr }

/-- The partition exists and the broker is its leader. -/
def Leads (n : NameServerState) (topic : ByteString) (partition : ℤ) (addr : String) : Prop :=
  ∃ info ∈ n.topics.lookup (text topic), ∃ p ∈ info.partition? partition, p.leader = addr

instance (n : NameServerState) (topic : ByteString) (partition : ℤ) (addr : String) :
    Decidable (n.Leads topic partition addr) :=
  inferInstanceAs (Decidable (∃ info ∈ n.topics.lookup (text topic), _))

/-! ## Topics that were created -/

/-- The partitions of a topic are numbered from 0, and there are some. -/
structure Numbered (info : TopicInfo) : Prop where
  pos : 0 < info.partitions.len
  lookup : ∀ i < info.partitions.len, ∃ p, info.partitions.lookup i = some p

theorem numbered_makePartitions (n : NameServerState) (topic : String) (brokerIDs : List ℕ)
    {count : ℕ} (hcount : 0 < count) :
    Numbered { topic, partitions := n.makePartitions brokerIDs count } where
  pos := by rwa [len_makePartitions]
  lookup i hi := by
    rw [len_makePartitions] at hi
    exact ⟨_, by rw [lookup_makePartitions, if_pos hi]⟩

variable {n n' : NameServerState}

theorem topics_doRebalance (n : NameServerState) (groupID : String) :
    (n.doRebalance groupID).topics = n.topics := by
  unfold doRebalance
  split <;> rfl

theorem topics_dropMembers (n : NameServerState) (groupID : String) (clients : List String) :
    (n.dropMembers groupID clients).topics = n.topics := by
  unfold dropMembers
  split
  · rfl
  dsimp only
  split
  · rfl
  · exact topics_doRebalance _ groupID

theorem topics_handleJoinGroup (n : NameServerState) (groupID clientID topic : String) (now : ℤ) :
    (n.handleJoinGroup groupID clientID topic now).1.topics = n.topics := by
  unfold handleJoinGroup
  split
  · rfl
  split
  · rfl
  · exact topics_doRebalance _ groupID

theorem topics_handleHeartbeat (n : NameServerState) (groupID clientID : String) (now : ℤ) :
    (n.handleHeartbeat groupID clientID now).1.topics = n.topics := by
  unfold handleHeartbeat
  repeat' split
  all_goals rfl

theorem topics_handleLeaveGroup (n : NameServerState) (groupID clientID : String) :
    (n.handleLeaveGroup groupID clientID).1.topics = n.topics := by
  unfold handleLeaveGroup
  split
  · rfl
  split
  · rfl
  · exact topics_dropMembers n groupID [clientID]

theorem topics_foldl_dropMembers (dead : String → List String) (order : List String)
    (n : NameServerState) :
    (order.foldl (fun m id => m.dropMembers id (dead id)) n).topics = n.topics := by
  induction order generalizing n with
  | nil => rfl
  | cons groupID order ih => exact (ih _).trans (topics_dropMembers n groupID (dead groupID))

/-- **What a step does to the topics**: nothing, or there is a new one. -/
theorem topics_of_step {ev : NsEvent} (hst : n.step ev = some n') :
    n'.topics = n.topics ∨ ∃ (topic : String) (brokerIDs : List ℕ) (count : ℕ),
      topic ≠ "" ∧ 0 < count ∧ n.topics.lookup topic = none ∧
        n'.topics = n.topics.insert topic
          { topic, partitions := n.makePartitions brokerIDs count } := by
  cases ev with
  | register addr clientAddr hostname =>
    cases hst
    exact Or.inl rfl
  | createTopic topic partitions brokerIDs =>
    rw [NameServerState.step] at hst
    split at hst
    · cases hst
      -- a request is refused or creates the topic
      rcases n.handleCreateTopic_cases topic partitions brokerIDs with
        ⟨e, heq⟩ | ⟨count, hname, hcount, hnew, -, heq⟩
      · rw [heq]
        exact Or.inl rfl
      · rw [heq]
        exact Or.inr ⟨topic, brokerIDs, count, hname, count_pos hcount, hnew, rfl⟩
    · cases hst
  | joinGroup groupID clientID topic now =>
    cases hst
    exact Or.inl (topics_handleJoinGroup n groupID clientID topic now)
  | heartbeat groupID clientID now =>
    cases hst
    exact Or.inl (topics_handleHeartbeat n groupID clientID now)
  | leaveGroup groupID clientID =>
    cases hst
    exact Or.inl (topics_handleLeaveGroup n groupID clientID)
  | checkHeartbeats clock order =>
    rw [NameServerState.step] at hst
    split at hst
    · cases hst
      exact Or.inl (topics_foldl_dropMembers _ order n)
    · cases hst

/-- Every topic has a name, and its partitions are numbered. -/
def TopicsInv (n : NameServerState) : Prop :=
  ∀ topic info, n.topics.lookup topic = some info → topic ≠ "" ∧ Numbered info

/-- A step keeps topics named and numbered: only `handleCreateTopic` adds one. -/
theorem TopicsInv.step (h : TopicsInv n) {ev : NsEvent} (hst : n.step ev = some n') :
    TopicsInv n' := by
  intro topic' info hinfo
  rcases topics_of_step hst with hsame | ⟨topic, brokerIDs, count, hname, hcount, -, hnew⟩
  · exact h topic' info (hsame ▸ hinfo)
  · rw [hnew, GoMap.lookup_insert_eq] at hinfo
    split at hinfo
    · rename_i heq
      rw [heq, ← Option.some.inj hinfo]
      exact ⟨hname, numbered_makePartitions n topic brokerIDs hcount⟩
    · exact h topic' info hinfo

/-- Every topic of a reachable name server has a name and partitions from 0 on. -/
theorem TopicsInv.of_run (hrun : Machine.Run NameServerState.step (fun _ _ _ => True) {} n) :
    TopicsInv n := by
  refine hrun.invariant (P := TopicsInv) (fun topic info hinfo => ?_)
    fun _ _ _ h _ hst => h.step hst
  cases hinfo

/-- **A topic stays** as it was created. -/
theorem lookup_topics_of_run {guard : NameServerState → NsEvent → NameServerState → Prop}
    (hrun : Machine.Run NameServerState.step guard n n') {topic : String} {info : TopicInfo}
    (hinfo : n.topics.lookup topic = some info) : n'.topics.lookup topic = some info := by
  refine hrun.invariant (P := fun n => n.topics.lookup topic = some info) hinfo ?_
  intro t ev u ht _ hst
  rcases topics_of_step hst with hsame | ⟨topic', brokerIDs, count, -, -, hfresh, hnew⟩
  · rw [hsame]
    exact ht
  · rw [hnew, AList.lookup_insert_ne]
    · exact ht
    · rintro rfl
      cases hfresh.symm.trans ht

/-! ## Routes -/

theorem partitionOfKey_bounds (key : ByteString) {count : ℕ} (hcount : 0 < count) :
    0 ≤ partitionOfKey key count ∧ partitionOfKey key count < count := by
  have habs : ((hashString key).toInt.tmod count).natAbs < count := by
    rw [Int.natAbs_tmod, Int.natAbs_natCast]
    exact Nat.mod_lt _ hcount
  rw [partitionOfKey]
  split <;> omega

theorem partition?_natCast (info : TopicInfo) (i : ℕ) :
    info.partition? i = info.partitions.lookup i := by
  rw [TopicInfo.partition?, if_neg (by omega), Int.toNat_natCast]

/-- A request that names no partition is answered for every topic with numbered partitions: for
the partition the key is sent to, and without a key for partition 0. -/
theorem handleRoute_of_numbered {form : RouteForm} {info : TopicInfo} (hname : text form.topic ≠ "")
    (hnumbered : Numbered info) (hinfo : n.topics.lookup (text form.topic) = some info)
    (hpartition : form.partition = []) :
    ∃ (i : ℕ) (p : PartitionInfo),
      (i : ℤ) = (if form.key ≠ [] then partitionOfKey form.key info.partitions.len else 0) ∧
      info.partitions.lookup i = some p ∧
      n.handleRoute form = .ok ⟨form.topic, i, p.leader, p.replicas, p.isr⟩ := by
  obtain ⟨hpos, hlookup⟩ := hnumbered
  have htopic : form.topic ≠ [] := fun hnil => hname (by rw [hnil]; rfl)
  obtain ⟨i, hi, hlt⟩ : ∃ i : ℕ,
      (i : ℤ) = (if form.key ≠ [] then partitionOfKey form.key info.partitions.len else 0) ∧
        i < info.partitions.len := by
    split
    · have hbounds := partitionOfKey_bounds form.key hpos
      exact ⟨(partitionOfKey form.key info.partitions.len).toNat, by omega, by omega⟩
    · exact ⟨0, rfl, hpos⟩
  obtain ⟨p, hp⟩ := hlookup i hlt
  have hasked : askedPartition info form = some (i : ℤ) := by
    rw [askedPartition, if_neg (not_not.mpr hpartition), hi]
    split <;> rfl
  refine ⟨i, p, hi, hp, ?_⟩
  rw [handleRoute, if_neg htopic, hinfo]
  dsimp only
  rw [if_neg hpos.ne', hasked]
  dsimp only
  rw [partition?_natCast, hp]

/-- **Routes.** A request that names no partition is answered for every topic that was
created. -/
theorem handleRoute_found (h : TopicsInv n) {form : RouteForm} {info : TopicInfo}
    (hinfo : n.topics.lookup (text form.topic) = some info)
    (hpartition : form.partition = []) :
    ∃ (i : ℕ) (p : PartitionInfo),
      (i : ℤ) = (if form.key ≠ [] then partitionOfKey form.key info.partitions.len else 0) ∧
      info.partitions.lookup i = some p ∧
      n.handleRoute form = .ok ⟨form.topic, i, p.leader, p.replicas, p.isr⟩ := by
  obtain ⟨hname, hnumbered⟩ := h (text form.topic) info hinfo
  exact handleRoute_of_numbered hname hnumbered hinfo hpartition

end NameServerState

/-- **Keys.** When `handleCreateTopic` has created a topic, a request with a key, whatever its
bytes, is from then on answered with one of the partitions of the topic. -/
theorem key_routed {n n' : NameServerState} {topic : ByteString} {partitions : PartitionsField}
    {brokerIDs : List ℕ} {count : ℕ}
    (hok : (n.handleCreateTopic (text topic) partitions brokerIDs).2 = .ok (text topic, count))
    (hrun : Machine.Run NameServerState.step (fun _ _ _ => True)
      (n.handleCreateTopic (text topic) partitions brokerIDs).1 n')
    {key : ByteString} (hkey : key ≠ []) :
    ∃ (i : ℕ) (info : TopicInfo) (p : PartitionInfo), i < count ∧
      n'.topics.lookup (text topic) = some info ∧ info.partitions.lookup i = some p ∧
      n'.handleRoute { topic, key } = .ok ⟨topic, i, p.leader, p.replicas, p.isr⟩ := by
  rcases n.handleCreateTopic_cases (text topic) partitions brokerIDs with
    ⟨e, heq⟩ | ⟨count', hname, hcount, -, -, heq⟩
  · rw [heq] at hok
    cases hok
  rw [heq] at hok hrun
  obtain rfl : count' = count := (Prod.mk.inj (Except.ok.inj hok)).2
  have hinfo : n'.topics.lookup (text topic) =
      some { topic := text topic, partitions := n.makePartitions brokerIDs count' } :=
    NameServerState.lookup_topics_of_run hrun (AList.lookup_insert _)
  have hpos := NameServerState.count_pos hcount
  obtain ⟨i, p, hi, hp, hroute⟩ := @NameServerState.handleRoute_of_numbered n' { topic, key } _ hname
    (NameServerState.numbered_makePartitions n (text topic) brokerIDs hpos) hinfo rfl
  refine ⟨i, _, p, ?_, hinfo, hp, hroute⟩
  have hbound := NameServerState.partitionOfKey_bounds key hpos
  rw [if_pos hkey] at hi
  dsimp only at hi
  rw [NameServerState.len_makePartitions] at hi
  omega

/-- A topic with two partitions, and the key `z`. -/
theorem key_routed_two :
    ∃ n : NameServerState, ∃ answer, n.handleRoute { topic := [116], key := [122] } = .ok answer := by
  obtain ⟨n, -, hok⟩ : ∃ n, Machine.Run NameServerState.step (fun _ _ _ => True) {} n ∧
      (n.handleCreateTopic (text [116]) (.given (some 2)) [1, 2]).2 = .ok (text [116], 2) :=
    Machine.exists_run_of_execWith [.register "1" "a" "", .register "2" "b" ""] (by decide +kernel)
  obtain ⟨_, _, _, _, _, _, hroute⟩ := @key_routed n _ _ _ _ _ hok .refl [122] (by decide)
  exact ⟨_, _, hroute⟩

end NameServer

namespace Broker

open NameServer Raft

/-! ## The leader check -/

/-- Letters, digits and `-`, `.`, `_`, `~`. -/
def Plain (s : ByteString) : Prop :=
  s.all fun b => (48 ≤ b.toNat ∧ b.toNat ≤ 57) ∨ (65 ≤ b.toNat ∧ b.toNat ≤ 90) ∨
    (97 ≤ b.toNat ∧ b.toNat ≤ 122) ∨ b = 45 ∨ b = 46 ∨ b = 95 ∨ b = 126

/-- What the name server reads when a broker gets `/route?topic=<topic>&key=<key>`; `none` if
the request fails. -/
class RouteQuery where
  form : ByteString → ByteString → Option RouteForm
  plain : ∀ topic key, Plain topic → Plain key → form topic key = some { topic, key }

/-- A query that is read as it is meant. -/
@[reducible] def literalQuery : RouteQuery where
  form topic key := some { topic, key }
  plain _ _ _ _ := rfl

section

variable [RouteQuery]

/-- `getRoute`; `none` is an error. -/
def getRoute (n : NameServerState) (topic key : ByteString) : Option RouteInfo :=
  match RouteQuery.form topic key with
  | none => none
  | some form =>
    match n.handleRoute form with
    | .error _ => none
    | .ok answer => some { partition := answer.partition, leader := answer.leader }

/-- `GetPartitionLeader`; the partition is not used. -/
def getPartitionLeader (n : NameServerState) (topic : ByteString) (_partition : ℤ) :
    Option String :=
  (getRoute n topic []).map RouteInfo.leader

/-- A broker with this address gets past the first check of `handleTCPProduce`. -/
def Passes (n : NameServerState) (clientAddr : String) (topic : ByteString) (partition : ℤ)
    (data : List UInt8) : Prop :=
  (Handler.onLookup { req := { topic := text topic, partition, data }, phase := .lookup } clientAddr
    (getPartitionLeader n topic partition)).phase = .named clientAddr

theorem passes_iff {n : NameServerState} {clientAddr : String} {topic : ByteString}
    {partition : ℤ} {data : List UInt8} :
    Passes n clientAddr topic partition data ↔
      getPartitionLeader n topic partition = some clientAddr := by
  rw [Passes]
  cases getPartitionLeader n topic partition with
  | none => simp [Handler.onLookup, Handler.answer]
  | some leader =>
    by_cases haddr : leader = clientAddr
    · simp [Handler.onLookup, haddr]
    · simp [Handler.onLookup, Handler.answer, haddr]

/-- For a topic with a plain name the answer is about partition 0. -/
theorem getPartitionLeader_plain {n : NameServerState} (h : NameServerState.TopicsInv n)
    {topic : ByteString} (hplain : Plain topic) {info : TopicInfo}
    (hinfo : n.topics.lookup (text topic) = some info) (partition : ℤ) :
    ∃ first, info.partitions.lookup 0 = some first ∧
      getPartitionLeader n topic partition = some first.leader := by
  obtain ⟨i, p, hi, hp, hroute⟩ :=
    @NameServerState.handleRoute_found n h { topic, key := [] } info hinfo rfl
  obtain rfl : i = 0 := by simpa using hi
  refine ⟨p, hp, ?_⟩
  rw [getPartitionLeader, getRoute, RouteQuery.plain topic [] hplain rfl]
  dsimp only
  rw [hroute]
  rfl

/-- **The leader check.** In every state of the name server, for every topic with a plain name that
was created and every partition number, the broker that passes is the leader of partition 0. So
passing implies that the partition exists and is led by the broker, iff the table has another
leader for partition 0, or has this broker for the partition that was asked for. -/
theorem leader_check_iff {n : NameServerState}
    (hrun : Machine.Run NameServerState.step (fun _ _ _ => True) {} n) {topic : ByteString}
    (hplain : Plain topic) {info : TopicInfo} (hinfo : n.topics.lookup (text topic) = some info)
    (clientAddr : String) (partition : ℤ) (data : List UInt8) :
    ∃ first, info.partitions.lookup 0 = some first ∧
      (Passes n clientAddr topic partition data ↔ first.leader = clientAddr) ∧
      ((Passes n clientAddr topic partition data → n.Leads topic partition clientAddr) ↔
        first.leader ≠ clientAddr ∨ n.Leads topic partition clientAddr) := by
  obtain ⟨first, hfirst, hnamed⟩ :=
    getPartitionLeader_plain (NameServerState.TopicsInv.of_run hrun) hplain hinfo partition
  have hpasses : Passes n clientAddr topic partition data ↔ first.leader = clientAddr := by
    rw [passes_iff, hnamed, Option.some_inj]
  refine ⟨first, hfirst, hpasses, ?_⟩
  rw [hpasses]
  exact imp_iff_not_or

end

section

open scoped GrowthPolicy

local instance : RouteQuery := literalQuery

/-- Two brokers, and a topic with two partitions. -/
def twoLeaders : List NsEvent :=
  [.register "1" "a" "", .register "2" "b" "", .createTopic "t" (.given (some 2)) [1, 2]]

/-- Broker `a` leads partition 0, so what it passes the check for is its own there. -/
theorem leader_check_iff_first :
    ∃ n, Machine.Run NameServerState.step (fun _ _ _ => True) {} n ∧
      (Passes n "a" [116] 0 [] → n.Leads [116] 0 "a") := by
  obtain ⟨n, hrun, hcreated, hleads⟩ :
      ∃ n, Machine.Run NameServerState.step (fun _ _ _ => True) {} n ∧
        (n.topics.lookup (text [116])).isSome ∧ n.Leads [116] 0 "a" :=
    Machine.exists_run_of_execWith twoLeaders (by decide +kernel)
  obtain ⟨info, hinfo⟩ := Option.isSome_iff_exists.mp hcreated
  have hplain : Plain [116] := by rfl
  obtain ⟨first, -, -, hiff⟩ := leader_check_iff hrun hplain hinfo "a" 0 []
  exact ⟨n, hrun, hiff.mpr (Or.inr hleads)⟩

/-- Broker `a` passes the check for partition 1, which `b` leads, and for partition 7, which
does not exist; and `b` does not pass it for its partition. -/
theorem leader_check_of_partition_zero :
    ∃ n, Machine.Run NameServerState.step (fun _ _ _ => True) {} n ∧
      Passes n "a" [116] 1 [] ∧ ¬ n.Leads [116] 1 "a" ∧
      Passes n "a" [116] 7 [] ∧ ¬ n.Leads [116] 7 "a" ∧
      ¬ Passes n "b" [116] 1 [] ∧ n.Leads [116] 1 "b" := by
  simp only [passes_iff]
  exact Machine.exists_run_of_execWith twoLeaders (by decide +kernel)

end

/-! ## Redirects -/

section

variable [GrowthPolicy]

omit [GrowthPolicy] in
/-- What follows `SubmitCommand` is no redirect. -/
theorem status_onSubmit {h : Handler} {entry : LogEntry} {res : Except String (ℕ × ℕ)}
    {resp : Response} (hphase : (h.onSubmit entry res).phase = .answered resp) :
    resp.status ≠ .redirect := by
  cases res with
  | error e =>
    obtain rfl := Phase.answered.inj hphase
    exact (by decide : RespStatus.error ≠ .redirect)
  | ok created =>
    dsimp only [Handler.onSubmit] at hphase
    split at hphase
    · cases hphase
    · obtain rfl := Phase.answered.inj hphase
      exact (by decide : RespStatus.success ≠ .redirect)

/-- **Redirects.** Whatever the name server answers to the two requests and whatever the Raft
node is doing, a redirect names another broker, unless the name server names this broker, its
Raft node does not lead, and the second answer is the same or missing. -/
theorem redirect_elsewhere_iff (clientAddr : String) (topic : ByteString) (partition : ℤ)
    (data : List UInt8) (leader : Option String) (checked : RaftNode) (newLeader : Option String)
    (node : RaftNode) :
    (∀ resp, (handleTCPProduce clientAddr topic partition data leader checked newLeader
        node).2.phase = .answered resp → resp.status = .redirect → resp.leader ≠ clientAddr) ↔
      ¬ (leader = some clientAddr ∧ checked.state ≠ .leader ∧
        (newLeader = some clientAddr ∨ newLeader = none)) := by
  unfold handleTCPProduce
  cases leader with
  | none => simp [Handler.onLookup, Handler.answer]
  | some leader =>
    by_cases haddr : leader = clientAddr
    · subst haddr
      simp only [Handler.onLookup, if_true]
      split
      · rename_i hchecked
        constructor
        · rintro - ⟨-, hfollows, -⟩
          exact hfollows hchecked
        · intro _ resp hphase hstatus
          exact absurd hstatus (status_onSubmit hphase)
      · rename_i hchecked
        cases newLeader <;> simp [Handler.onLookupAgain, Handler.answer, hchecked]
    · simp [Handler.onLookup, Handler.answer, haddr]

end

section

open scoped GrowthPolicy

local instance : RouteQuery := literalQuery

/-- The only broker leads every partition for the name server. While its Raft node follows it
sends clients back to itself. -/
theorem redirect_to_itself :
    ∃ (n : NameServerState) (node : RaftNode),
      Machine.Run NameServerState.step (fun _ _ _ => True) {} n ∧ node.state = .follower ∧
      (handleTCPProduce "a" [116] 0 [1, 7] (getPartitionLeader n [116] 0) node
        (getPartitionLeader n [116] 0) node).2.phase =
          .answered { status := .redirect, leader := "a" } := by
  obtain ⟨n, hrun, hleader⟩ :
      ∃ n, Machine.Run NameServerState.step (fun _ _ _ => True) {} n ∧
        getPartitionLeader n [116] 0 = some "a" :=
    Machine.exists_run_of_execWith
      [.register "1" "a" "", .createTopic "t" .absent [1]] (by decide +kernel)
  refine ⟨n, { RedeliveryBroker.onePartition.node with state := .follower }, hrun, rfl, ?_⟩
  rw [hleader]
  rfl

end

end Broker

end DistributedMQ
