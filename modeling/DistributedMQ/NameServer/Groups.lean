import DistributedMQ.Lib.Blocks
import DistributedMQ.Lib.Machine
import DistributedMQ.NameServer.Registry
import Mathlib.Data.Finset.Card
import Mathlib.Data.List.Sort
import Mathlib.Data.String.Basic

/-!
# Topics and consumer groups (`nameserver.go` lines 145–219, 399–525, 579–621, 669–754)

The NameServer keeps the partitions of every topic and deals them out to the members of
the consumer groups. All handlers and the heartbeat sweep run under `n.mu`. The
`partitions` field of a topic request is given by what `strconv.Atoi` makes of it; the
brokers that were heard of in the last 30 seconds, the clock readings and the order in
which a sweep visits the groups are inputs. `Assignments`, a map to `true`, is a set.
The HTTP status and the JSON around the answers are left out.

- `lookup_rebalance`: `doRebalance` gives the `i`-th member, in the order of ids, the `i`-th
  block of the partitions.
- `GroupInv`: a group has members, the partitions of its topic, and the assignment of
  `doRebalance`.
- `groups_assigned`: what this means in every state that can be reached.
-/

namespace DistributedMQ.NameServer

open Machine Blocks

/-! ## Topics -/

structure PartitionInfo where
  partitionID : ℕ
  leader : String
  replicas : List String
  isr : List String
deriving DecidableEq

structure TopicInfo where
  topic : String
  partitions : GoMap ℕ PartitionInfo

structure MemberMeta where
  clientID : String
  heartbeat : ℤ
  assignments : Finset ℕ
deriving DecidableEq

structure ConsumerGroup where
  groupID : String
  members : GoMap String MemberMeta
  topic : String
  partitions : List ℕ
  generation : ℕ

/-- The state of the NameServer. -/
structure NameServerState where
  registry : Registry := {}
  topics : GoMap String TopicInfo := ∅
  consumerGroups : GoMap String ConsumerGroup := ∅

/-- `sort.Ints`. -/
def sortInts (l : List ℕ) : List ℕ := l.insertionSort (· ≤ ·)

/-- `sort.Strings`. -/
def sortStrings (l : List String) : List String := l.insertionSort (· ≤ ·)

/-- The field `partitions` of a request. -/
inductive PartitionsField where
  | absent
  /-- The result of `strconv.Atoi`. -/
  | given (value : Option ℤ)

/-- The number of partitions asked for; one by default. -/
def PartitionsField.count : PartitionsField → Except String ℕ
  | .absent => .ok 1
  | .given none => .error "invalid partitions value"
  | .given (some k) => if k < 1 then .error "invalid partitions value" else .ok k.toNat

namespace NameServerState

/-- The replicas of partition `i`: up to three brokers in turn. -/
def replicas (n : NameServerState) (brokerIDs : List ℕ) (i : ℕ) : List String :=
  (List.range (min 3 brokerIDs.length)).filterMap fun j =>
    (brokerIDs[(i + j) % brokerIDs.length]?).bind fun id =>
      (n.registry.brokers.lookup id).map BrokerInfo.clientAddr

def partitionInfo (n : NameServerState) (brokerIDs : List ℕ) (i : ℕ) : PartitionInfo where
  partitionID := i
  leader := (n.replicas brokerIDs i).headD ""
  replicas := n.replicas brokerIDs i
  isr := n.replicas brokerIDs i

/-- The loop over the partitions of a new topic. -/
def makePartitions (n : NameServerState) (brokerIDs : List ℕ) (count : ℕ) : GoMap ℕ PartitionInfo :=
  (List.range count).foldl (fun m i => m.insert i (n.partitionInfo brokerIDs i)) ∅

/-- `handleCreateTopic`, with what `getAvailableBrokers` returns. -/
def handleCreateTopic (n : NameServerState) (topic : String) (partitions : PartitionsField)
    (brokerIDs : List ℕ) : NameServerState × Except String (String × ℕ) :=
  if topic = "" then (n, .error "topic is required")
  else
    match partitions.count with
    | .error e => (n, .error e)
    | .ok count =>
      match n.topics.lookup topic with
      | some _ => (n, .error "topic already exists")
      | none =>
        if brokerIDs = [] then (n, .error "no brokers available")
        else
          ({ n with
             topics := n.topics.insert topic
               { topic, partitions := n.makePartitions brokerIDs count } },
            .ok (topic, count))

end NameServerState

/-! ## Rebalancing -/

namespace ConsumerGroup

/-- `Assignments[pid] = true` for a member. -/
def assign (members : GoMap String MemberMeta) (id : String) (pid : ℕ) :
    GoMap String MemberMeta :=
  match members.lookup id with
  | none => members
  | some m => members.insert id { m with assignments := insert pid m.assignments }

/-- The inner loop of `doRebalance`: the member takes up to `count` partitions. -/
def assignBlock (partitions : List ℕ) (id : String) :
    ℕ → ℕ → GoMap String MemberMeta → GoMap String MemberMeta × ℕ
  | 0, partitionIndex, members => (members, partitionIndex)
  | count + 1, partitionIndex, members =>
    match partitions[partitionIndex]? with
    | none => (members, partitionIndex)
    | some pid => assignBlock partitions id count (partitionIndex + 1) (assign members id pid)

/-- The outer loop of `doRebalance`, from member `i` on. -/
def assignMembers (partitions : List ℕ) (partitionsPerMember remainder : ℕ) :
    List String → ℕ → ℕ → GoMap String MemberMeta → GoMap String MemberMeta
  | [], _, _, members => members
  | id :: ids, i, partitionIndex, members =>
    let count := if i < remainder then partitionsPerMember + 1 else partitionsPerMember
    let assigned := assignBlock partitions id count partitionIndex members
    assignMembers partitions partitionsPerMember remainder ids (i + 1) assigned.2 assigned.1

/-- The ids of the members in order. -/
def memberIDs (g : ConsumerGroup) : List String := sortStrings g.members.keys

/-- `doRebalance` on the group. -/
def rebalance (g : ConsumerGroup) : ConsumerGroup :=
  let members := g.memberIDs
  if members = [] then g
  else
    { g with
      members := assignMembers g.partitions (g.partitions.length / members.length)
        (g.partitions.length % members.length) members 0 0
        (g.members.mapValues fun m => { m with assignments := ∅ })
      generation := g.generation + 1 }

/-- The member `clientID` is new or still there. -/
def touch (g : ConsumerGroup) (clientID : String) (now : ℤ) : ConsumerGroup :=
  { g with
    members := g.members.insert clientID
      (match g.members.lookup clientID with
      | none => { clientID, heartbeat := now, assignments := ∅ }
      | some m => { m with heartbeat := now }) }

end ConsumerGroup

/-! ## The handlers -/

/-- The answer of `handleJoinGroup`; its list of assignments is given as a set. -/
structure JoinAnswer where
  groupID : String
  generation : ℕ
  clientID : String
  assignments : Finset ℕ
  topic : String
deriving DecidableEq

namespace NameServerState

def doRebalance (n : NameServerState) (groupID : String) : NameServerState :=
  match n.consumerGroups.lookup groupID with
  | none => n
  | some g => { n with consumerGroups := n.consumerGroups.insert groupID g.rebalance }

/-- The group a join is for: the one that exists, or a new one. -/
def joinedGroup (n : NameServerState) (groupID topic : String) : Except String ConsumerGroup :=
  match n.consumerGroups.lookup groupID with
  | some g =>
    if g.topic ≠ topic then .error "group already subscribed to different topic" else .ok g
  | none =>
    match n.topics.lookup topic with
    | none => .error "topic not found"
    | some info =>
      .ok { groupID, members := ∅, topic, partitions := sortInts info.partitions.keys,
            generation := 1 }

/-- What a member is told about its group. -/
def joinAnswer (n : NameServerState) (groupID clientID topic : String) : JoinAnswer :=
  let group := n.consumerGroups.lookup groupID
  { groupID
    generation := (group.map ConsumerGroup.generation).getD 0
    clientID
    assignments :=
      ((group.bind fun g => g.members.lookup clientID).map MemberMeta.assignments).getD ∅
    topic }

def handleJoinGroup (n : NameServerState) (groupID clientID topic : String) (now : ℤ) :
    NameServerState × Except String JoinAnswer :=
  if groupID = "" ∨ clientID = "" ∨ topic = "" then
    (n, .error "group_id, client_id, and topic are required")
  else
    match n.joinedGroup groupID topic with
    | .error e => (n, .error e)
    | .ok g =>
      let n := { n with consumerGroups := n.consumerGroups.insert groupID (g.touch clientID now) }
      let n := n.doRebalance groupID
      (n, .ok (n.joinAnswer groupID clientID topic))

def handleHeartbeat (n : NameServerState) (groupID clientID : String) (now : ℤ) :
    NameServerState × Except String Unit :=
  if groupID = "" ∨ clientID = "" then (n, .error "group_id and client_id are required")
  else
    match n.consumerGroups.lookup groupID with
    | none => (n, .error "consumer group not found")
    | some g =>
      match g.members.lookup clientID with
      | none => (n, .error "member not found in group")
      | some _ =>
        ({ n with consumerGroups := n.consumerGroups.insert groupID (g.touch clientID now) },
          .ok ())

/-- Delete members of a group, and the group if none is left. -/
def dropMembers (n : NameServerState) (groupID : String) (clients : List String) : NameServerState :=
  match n.consumerGroups.lookup groupID with
  | none => n
  | some g =>
    let g := { g with members := clients.foldl (fun m id => m.erase id) g.members }
    if g.members.len = 0 then { n with consumerGroups := n.consumerGroups.erase groupID }
    else { n with consumerGroups := n.consumerGroups.insert groupID g }.doRebalance groupID

def handleLeaveGroup (n : NameServerState) (groupID clientID : String) :
    NameServerState × Except String Unit :=
  if groupID = "" ∨ clientID = "" then (n, .error "group_id and client_id are required")
  else
    match n.consumerGroups.lookup groupID with
    | none => (n, .error "consumer group not found")
    | some _ => (n.dropMembers groupID [clientID], .ok ())

/-- `deadMembers[groupID]` of a sweep; `clock` is what `time.Since` reads. -/
def deadMembers (n : NameServerState) (clock : String → String → ℤ) (groupID : String) :
    List String :=
  match n.consumerGroups.lookup groupID with
  | none => []
  | some g =>
    (g.members.filter fun id m => 30 * 1000000000 < clock groupID id - m.heartbeat).keys

/-- A tick of `startHeartbeatChecker`; `order` are the groups with dead members. -/
def checkHeartbeats (n : NameServerState) (clock : String → String → ℤ) (order : List String) :
    NameServerState :=
  order.foldl (fun m groupID => m.dropMembers groupID (n.deadMembers clock groupID)) n

end NameServerState

inductive NsEvent where
  | register (addr clientAddr hostname : String)
  | createTopic (topic : String) (partitions : PartitionsField) (brokerIDs : List ℕ)
  | joinGroup (groupID clientID topic : String) (now : ℤ)
  | heartbeat (groupID clientID : String) (now : ℤ)
  | leaveGroup (groupID clientID : String)
  | checkHeartbeats (clock : String → String → ℤ) (order : List String)

namespace NameServerState

def step (n : NameServerState) : NsEvent → Option NameServerState
  | .register addr clientAddr hostname =>
    some { n with registry := (n.registry.handleRegister addr clientAddr hostname).1 }
  | .createTopic topic partitions brokerIDs =>
    -- the available brokers are some of the registered ones, in any order
    if brokerIDs.Nodup ∧ brokerIDs ⊆ n.registry.brokers.keys then
      some (n.handleCreateTopic topic partitions brokerIDs).1
    else none
  | .joinGroup groupID clientID topic now => some (n.handleJoinGroup groupID clientID topic now).1
  | .heartbeat groupID clientID now => some (n.handleHeartbeat groupID clientID now).1
  | .leaveGroup groupID clientID => some (n.handleLeaveGroup groupID clientID).1
  | .checkHeartbeats clock order =>
    if order.Perm (n.consumerGroups.keys.filter fun id => n.deadMembers clock id ≠ []) then
      some (n.checkHeartbeats clock order)
    else none

end NameServerState

/-! ## What `doRebalance` assigns -/

namespace ConsumerGroup

variable {members : GoMap String MemberMeta} {partitions : List ℕ} {id : String} {m : MemberMeta}

theorem lookup_assign (h : members.lookup id = some m) (pid : ℕ) :
    (assign members id pid).lookup id =
      some { m with assignments := insert pid m.assignments } := by
  rw [assign, h]
  exact AList.lookup_insert _

theorem lookup_assign_ne {id' : String} (hne : id' ≠ id) (pid : ℕ) :
    (assign members id pid).lookup id' = members.lookup id' := by
  rw [assign]
  split
  · rfl
  · exact AList.lookup_insert_ne hne

theorem drop_eq_cons {idx pid : ℕ} (h : partitions[idx]? = some pid) :
    partitions.drop idx = pid :: partitions.drop (idx + 1) := by
  obtain ⟨hlt, heq⟩ := List.getElem?_eq_some_iff.mp h
  rw [List.drop_eq_getElem_cons hlt, heq]

/-- **Inner loop**: the index moves past the partitions taken. -/
theorem assignBlock_snd (partitions : List ℕ) (id : String) (count idx : ℕ)
    (members : GoMap String MemberMeta) :
    (assignBlock partitions id count idx members).2 =
      idx + ((partitions.drop idx).take count).length := by
  induction count generalizing idx members with
  | zero => rfl
  | succ count ih =>
    rw [assignBlock]
    split
    · rename_i hnone
      rw [List.drop_eq_nil_of_le (List.getElem?_eq_none_iff.mp hnone)]
      rfl
    · rename_i pid hpid
      rw [ih, drop_eq_cons hpid, List.take_succ_cons, List.length_cons]
      omega

/-- **Inner loop**: nobody else is touched. -/
theorem lookup_assignBlock_ne {id' : String} (hne : id' ≠ id) (count idx : ℕ)
    (members : GoMap String MemberMeta) :
    (assignBlock partitions id count idx members).1.lookup id' = members.lookup id' := by
  induction count generalizing idx members with
  | zero => rfl
  | succ count ih =>
    rw [assignBlock]
    split
    · rfl
    · rw [ih, lookup_assign_ne hne]

/-- **Inner loop**: the member gets the partitions taken. -/
theorem lookup_assignBlock (h : members.lookup id = some m) (count idx : ℕ) :
    (assignBlock partitions id count idx members).1.lookup id =
      some { m with
        assignments := m.assignments ∪ ((partitions.drop idx).take count).toFinset } := by
  induction count generalizing idx members m with
  | zero =>
    rw [List.take_zero, List.toFinset_nil, Finset.union_empty]
    exact h
  | succ count ih =>
    rw [assignBlock]
    split
    · rename_i hnone
      rw [List.drop_eq_nil_of_le (List.getElem?_eq_none_iff.mp hnone), List.take_nil,
        List.toFinset_nil, Finset.union_empty]
      exact h
    · rename_i pid hpid
      rw [ih (lookup_assign h pid), drop_eq_cons hpid, List.take_succ_cons, List.toFinset_cons,
        Finset.insert_union, Finset.union_insert]

/-- **Outer loop**: the members that are not in the list are left alone. -/
theorem lookup_assignMembers_of_notMem (per rem : ℕ) {ids : List String} (h : id ∉ ids)
    (i idx : ℕ) (members : GoMap String MemberMeta) :
    (assignMembers partitions per rem ids i idx members).lookup id = members.lookup id := by
  induction ids generalizing i idx members with
  | nil => rfl
  | cons id' ids ih =>
    rw [List.mem_cons, not_or] at h
    rw [assignMembers, ih h.2, lookup_assignBlock_ne h.1]

/-- **Outer loop**: the members in the list get one block each. -/
theorem lookup_assignMembers {parts : ℕ} {ids : List String} (hnodup : ids.Nodup) {i : ℕ}
    (hparts : i + ids.length = parts) {k : ℕ} (hid : ids[k]? = some id)
    (h : members.lookup id = some m) :
    (assignMembers partitions (partitions.length / parts) (partitions.length % parts) ids i
        (start partitions.length parts i) members).lookup id =
      some { m with assignments := m.assignments ∪ (block partitions parts (i + k)).toFinset } := by
  induction ids generalizing i k members with
  | nil => exact absurd hid nofun
  | cons first ids ih =>
    rw [List.nodup_cons] at hnodup
    rw [List.length_cons] at hparts
    have hcount : (if i < partitions.length % parts then partitions.length / parts + 1
      else partitions.length / parts) = size partitions.length parts i := rfl
    -- the next member starts where this one's block ends
    have hidx : (assignBlock partitions first (size partitions.length parts i)
        (start partitions.length parts i) members).2 = start partitions.length parts (i + 1) := by
      rw [assignBlock_snd, start_succ]
      exact congrArg _ (length_block partitions (by omega))
    rw [assignMembers, hcount, hidx]
    cases k with
    | zero =>
      obtain rfl : first = id := Option.some.inj hid
      rw [lookup_assignMembers_of_notMem _ _ hnodup.1, lookup_assignBlock h]
      rfl
    | succ k =>
      have hmem : id ∈ ids := List.mem_of_getElem? hid
      have hne : id ≠ first := fun heq => hnodup.1 (heq ▸ hmem)
      have hkept : (assignBlock partitions first (size partitions.length parts i)
          (start partitions.length parts i) members).1.lookup id = some m :=
        (lookup_assignBlock_ne hne _ _ members).trans h
      rw [ih hnodup.2 (i := i + 1) (by omega) hid hkept, show i + 1 + k = i + (k + 1) by omega]

/-- What the member `id` of the members `ids` gets: the block at its position. -/
def share (partitions : List ℕ) (ids : List String) (id : String) : Finset ℕ :=
  (block partitions ids.length (ids.idxOf id)).toFinset

variable {g g' : ConsumerGroup}

theorem mem_memberIDs : id ∈ g.memberIDs ↔ id ∈ g.members :=
  (List.perm_insertionSort _ g.members.keys).mem_iff

theorem exists_lookup_of_mem_memberIDs (h : id ∈ g.memberIDs) :
    ∃ m, g.members.lookup id = some m :=
  GoMap.mem_iff_exists_lookup.mp (mem_memberIDs.mp h)

theorem mem_memberIDs_of_lookup (h : g.members.lookup id = some m) : id ∈ g.memberIDs :=
  mem_memberIDs.mpr (GoMap.mem_iff_exists_lookup.mpr ⟨m, h⟩)

theorem nodup_memberIDs (g : ConsumerGroup) : g.memberIDs.Nodup :=
  (List.perm_insertionSort _ g.members.keys).nodup_iff.mpr g.members.nodupKeys

theorem length_memberIDs (g : ConsumerGroup) : g.memberIDs.length = g.members.len :=
  (List.perm_insertionSort _ g.members.keys).length_eq.trans (List.length_map _)

/-- The order of the map does not matter. -/
theorem memberIDs_congr (h : ∀ id, id ∈ g.members ↔ id ∈ g'.members) :
    g.memberIDs = g'.memberIDs := by
  have hperm : g.memberIDs.Perm g'.memberIDs := by
    refine (List.perm_ext_iff_of_nodup g.nodup_memberIDs g'.nodup_memberIDs).mpr fun id => ?_
    rw [mem_memberIDs, mem_memberIDs, h]
  exact hperm.eq_of_sortedLE List.sortedLE_insertionSort List.sortedLE_insertionSort

/-- **`doRebalance`** gives every member its share. -/
theorem lookup_rebalance (hne : g.memberIDs ≠ []) (id : String) :
    g.rebalance.members.lookup id = (g.members.lookup id).map fun m =>
      { m with assignments := share g.partitions g.memberIDs id } := by
  rw [rebalance, if_neg hne]
  dsimp only
  by_cases hmem : id ∈ g.memberIDs
  · obtain ⟨m, hm⟩ := exists_lookup_of_mem_memberIDs hmem
    have hcleared : (g.members.mapValues fun m => { m with assignments := ∅ }).lookup id =
        some { m with assignments := ∅ } := by
      rw [GoMap.lookup_mapValues, hm]
      rfl
    have hdealt := @lookup_assignMembers _ g.partitions id _ _ _ g.nodup_memberIDs 0
      (Nat.zero_add _) _ (List.getElem?_idxOf hmem) hcleared
    rw [start_zero] at hdealt
    rw [hdealt, hm, Finset.empty_union, Nat.zero_add]
    rfl
  · rw [lookup_assignMembers_of_notMem _ _ hmem, GoMap.lookup_mapValues,
      AList.lookup_eq_none.mpr (mem_memberIDs.not.mp hmem)]
    rfl

theorem memberIDs_rebalance (g : ConsumerGroup) : g.rebalance.memberIDs = g.memberIDs := by
  by_cases hne : g.memberIDs = []
  · rw [rebalance, if_pos hne]
  · refine memberIDs_congr fun id => ?_
    rw [← AList.lookup_isSome, ← AList.lookup_isSome, lookup_rebalance hne, Option.isSome_map]

theorem partitions_rebalance (g : ConsumerGroup) : g.rebalance.partitions = g.partitions := by
  rw [rebalance]
  split
  · rfl
  · rfl

theorem topic_rebalance (g : ConsumerGroup) : g.rebalance.topic = g.topic := by
  rw [rebalance]
  split
  · rfl
  · rfl

end ConsumerGroup

theorem NameServerState.doRebalance_insert (n : NameServerState) (groupID : String)
    (g : ConsumerGroup) :
    { n with consumerGroups := n.consumerGroups.insert groupID g }.doRebalance groupID =
      { n with consumerGroups := n.consumerGroups.insert groupID g.rebalance } := by
  rw [doRebalance]
  dsimp only
  rw [AList.lookup_insert]
  dsimp only
  rw [AList.insert_insert]

/-! ## The invariant -/

open ConsumerGroup

/-- The group has members, the partitions of its topic, and every member its share. -/
structure GroupInv (topics : GoMap String TopicInfo) (g : ConsumerGroup) : Prop where
  members : g.memberIDs ≠ []
  partitions : ∃ info, topics.lookup g.topic = some info ∧
    g.partitions = sortInts info.partitions.keys
  share : ∀ id m, g.members.lookup id = some m →
    m.assignments = share g.partitions g.memberIDs id

namespace GroupInv

variable {topics : GoMap String TopicInfo} {g : ConsumerGroup}

/-- Rebalancing establishes the invariant, whatever was assigned before. -/
theorem rebalance (hne : g.memberIDs ≠ []) (hpart : ∃ info, topics.lookup g.topic = some info ∧
    g.partitions = sortInts info.partitions.keys) : GroupInv topics g.rebalance := by
  refine ⟨?_, ?_, fun id m hm => ?_⟩
  · rwa [memberIDs_rebalance]
  · rwa [topic_rebalance, partitions_rebalance]
  · rw [lookup_rebalance hne] at hm
    obtain ⟨old, _, rfl⟩ := Option.map_eq_some_iff.mp hm
    rw [memberIDs_rebalance, partitions_rebalance]

theorem createTopic (h : GroupInv topics g) {topic : String} (hnew : topics.lookup topic = none)
    (info : TopicInfo) : GroupInv (topics.insert topic info) g := by
  refine ⟨h.members, ?_, h.share⟩
  obtain ⟨old, hold, hpart⟩ := h.partitions
  have hne : g.topic ≠ topic := by
    intro heq
    rw [heq, hnew] at hold
    exact absurd hold nofun
  exact ⟨old, (AList.lookup_insert_ne hne).trans hold, hpart⟩

/-- A heartbeat changes no assignment. -/
theorem touch (h : GroupInv topics g) {clientID : String} {m : MemberMeta}
    (hm : g.members.lookup clientID = some m) (now : ℤ) :
    GroupInv topics (g.touch clientID now) := by
  have hlookup : ∀ id, (g.touch clientID now).members.lookup id = if id = clientID
      then some { m with heartbeat := now } else g.members.lookup id := by
    intro id
    rw [ConsumerGroup.touch, hm]
    show (AList.insert clientID { m with heartbeat := now } g.members).lookup id = _
    split
    · rename_i heq
      rw [heq]
      exact AList.lookup_insert _
    · rename_i hne
      exact AList.lookup_insert_ne hne
  have hids : (g.touch clientID now).memberIDs = g.memberIDs := by
    refine memberIDs_congr fun id => ?_
    rw [← AList.lookup_isSome, ← AList.lookup_isSome, hlookup]
    split
    · rename_i heq
      rw [heq, hm]
      rfl
    · rfl
  -- members and shares are the same, only the time is new
  refine ⟨by rw [hids]; exact h.members, h.partitions, fun id m' hm' => ?_⟩
  rw [hids]
  rw [hlookup] at hm'
  split at hm'
  · rename_i heq
    cases hm'
    rw [heq]
    exact h.share clientID m hm
  · exact h.share id m' hm'

end GroupInv

/-- Every group satisfies `GroupInv`. -/
def GroupsInv (n : NameServerState) : Prop :=
  ∀ groupID g, n.consumerGroups.lookup groupID = some g → GroupInv n.topics g

namespace GroupsInv

open NameServerState

variable {n n' : NameServerState}

theorem insert (h : GroupsInv n) {g : ConsumerGroup} (hg : GroupInv n.topics g)
    (groupID : String) :
    GroupsInv { n with consumerGroups := n.consumerGroups.insert groupID g } := by
  intro groupID' g' hlookup
  by_cases heq : groupID' = groupID
  · rw [heq] at hlookup
    obtain rfl := Option.some.inj ((AList.lookup_insert _).symm.trans hlookup)
    exact hg
  · exact h groupID' g' ((AList.lookup_insert_ne heq).symm.trans hlookup)

theorem erase (h : GroupsInv n) (groupID : String) :
    GroupsInv { n with consumerGroups := n.consumerGroups.erase groupID } := by
  intro groupID' g hlookup
  by_cases heq : groupID' = groupID
  · rw [heq] at hlookup
    exact absurd ((AList.lookup_erase _ _).symm.trans hlookup) nofun
  · exact h groupID' g ((AList.lookup_erase_ne heq).symm.trans hlookup)

/-- A group is changed and rebalanced. -/
theorem doRebalance (h : GroupsInv n) {g : ConsumerGroup} (hne : g.memberIDs ≠ [])
    (hpart : ∃ info, n.topics.lookup g.topic = some info ∧
      g.partitions = sortInts info.partitions.keys) (groupID : String) :
    GroupsInv ({ n with
      consumerGroups := n.consumerGroups.insert groupID g }.doRebalance groupID) := by
  rw [doRebalance_insert]
  exact h.insert (GroupInv.rebalance hne hpart) groupID

theorem handleCreateTopic (h : GroupsInv n) (topic : String) (partitions : PartitionsField)
    (brokerIDs : List ℕ) : GroupsInv (n.handleCreateTopic topic partitions brokerIDs).1 := by
  rw [NameServerState.handleCreateTopic]
  split
  · exact h
  split
  · exact h
  split
  · exact h
  rename_i hnew
  split
  · exact h
  · exact fun groupID g hg => (h groupID g hg).createTopic hnew _

/-- The group of a join has the partitions of its topic. -/
theorem joinedGroup (h : GroupsInv n) {groupID topic : String} {g : ConsumerGroup}
    (hg : n.joinedGroup groupID topic = .ok g) :
    ∃ info, n.topics.lookup g.topic = some info ∧
      g.partitions = sortInts info.partitions.keys := by
  rw [NameServerState.joinedGroup] at hg
  split at hg
  · rename_i g' hg'
    split at hg
    · exact absurd hg nofun
    · obtain rfl := Except.ok.inj hg
      exact (h groupID g' hg').partitions
  · split at hg
    · exact absurd hg nofun
    · rename_i info hinfo
      obtain rfl := Except.ok.inj hg
      exact ⟨info, hinfo, rfl⟩

theorem handleJoinGroup (h : GroupsInv n) (groupID clientID topic : String) (now : ℤ) :
    GroupsInv (n.handleJoinGroup groupID clientID topic now).1 := by
  rw [NameServerState.handleJoinGroup]
  split
  · exact h
  split
  · exact h
  · rename_i g hg
    have hpart := h.joinedGroup hg
    refine h.doRebalance (g := g.touch clientID now) ?_ hpart groupID
    exact List.ne_nil_of_mem (mem_memberIDs.mpr ((AList.mem_insert _).mpr (Or.inl rfl)))

theorem handleHeartbeat (h : GroupsInv n) (groupID clientID : String) (now : ℤ) :
    GroupsInv (n.handleHeartbeat groupID clientID now).1 := by
  rw [NameServerState.handleHeartbeat]
  split
  · exact h
  split
  · exact h
  rename_i g hg
  split
  · exact h
  · rename_i m hm
    exact h.insert ((h groupID g hg).touch hm now) groupID

theorem dropMembers (h : GroupsInv n) (groupID : String) (clients : List String) :
    GroupsInv (n.dropMembers groupID clients) := by
  rw [NameServerState.dropMembers]
  split
  · exact h
  rename_i g hg
  dsimp only
  split
  · exact h.erase groupID
  · rename_i hlen
    have hpart := (h groupID g hg).partitions
    refine h.doRebalance
      (g := { g with members := clients.foldl (fun m id => m.erase id) g.members }) ?_ hpart groupID
    intro hnil
    exact hlen ((length_memberIDs _).symm.trans (congrArg List.length hnil))

theorem handleLeaveGroup (h : GroupsInv n) (groupID clientID : String) :
    GroupsInv (n.handleLeaveGroup groupID clientID).1 := by
  rw [NameServerState.handleLeaveGroup]
  split
  · exact h
  split
  · exact h
  · exact h.dropMembers groupID [clientID]

/-- A sweep keeps the groups, in whatever order it visits them. -/
theorem foldl_dropMembers (dead : String → List String) (order : List String)
    (h : GroupsInv n) : GroupsInv (order.foldl (fun m id => m.dropMembers id (dead id)) n) := by
  induction order generalizing n with
  | nil => exact h
  | cons groupID order ih => exact ih (h.dropMembers groupID (dead groupID))

/-- Every request and every sweep keeps the groups. -/
theorem step (h : GroupsInv n) {ev : NsEvent} (hst : n.step ev = some n') : GroupsInv n' := by
  cases ev with
  | register addr clientAddr hostname =>
    cases hst
    exact h
  | createTopic topic partitions brokerIDs =>
    rw [NameServerState.step] at hst
    split at hst
    · cases hst
      exact h.handleCreateTopic topic partitions brokerIDs
    · exact absurd hst nofun
  | joinGroup groupID clientID topic now =>
    cases hst
    exact h.handleJoinGroup groupID clientID topic now
  | heartbeat groupID clientID now =>
    cases hst
    exact h.handleHeartbeat groupID clientID now
  | leaveGroup groupID clientID =>
    cases hst
    exact h.handleLeaveGroup groupID clientID
  | checkHeartbeats clock order =>
    rw [NameServerState.step] at hst
    split at hst
    · cases hst
      exact foldl_dropMembers (n.deadMembers clock) order h
    · exact absurd hst nofun

/-- The invariant needs no guard: it holds in every reachable state. -/
theorem of_run (hrun : Run NameServerState.step (fun _ _ _ => True) {} n) : GroupsInv n := by
  refine hrun.invariant (P := GroupsInv) (fun groupID g hg => ?_) ?_
  · have hnone : AList.lookup groupID (∅ : GoMap String ConsumerGroup) = none := rfl
    exact absurd (hnone.symm.trans hg) nofun
  · intro m ev m' hm _ hst
    exact hm.step hst

end GroupsInv

/-! ## What members and partitions see -/

/-- The partitions of the topic are dealt out to the members of the group. -/
structure DealtOut (n : NameServerState) (g : ConsumerGroup) : Prop where
  /-- The group has a member. -/
  member : ∃ id m, g.members.lookup id = some m
  /-- Its partitions are those of its topic. -/
  partitions : g.partitions.Nodup ∧ ∃ info, n.topics.lookup g.topic = some info ∧
    ∀ pid, pid ∈ g.partitions ↔ pid ∈ info.partitions
  /-- Members hold partitions of the topic only. -/
  owned : ∀ id m, g.members.lookup id = some m → ∀ pid ∈ m.assignments, pid ∈ g.partitions
  /-- Every partition is assigned to exactly one member. -/
  owner : ∀ pid ∈ g.partitions, ∃! id, ∃ m, g.members.lookup id = some m ∧ pid ∈ m.assignments
  /-- The loads differ by at most one. -/
  balanced : ∀ id m id' m', g.members.lookup id = some m → g.members.lookup id' = some m' →
    m.assignments.card ≤ m'.assignments.card + 1

namespace GroupInv

variable {n : NameServerState} {g : ConsumerGroup}

theorem nodup_partitions (h : GroupInv n.topics g) : g.partitions.Nodup := by
  obtain ⟨info, _, hpart⟩ := h.partitions
  rw [hpart]
  exact (List.perm_insertionSort _ info.partitions.keys).nodup_iff.mpr info.partitions.nodupKeys

theorem idxOf_lt {id : String} {m : MemberMeta} (hm : g.members.lookup id = some m) :
    g.memberIDs.idxOf id < g.memberIDs.length :=
  List.idxOf_lt_length_iff.mpr (mem_memberIDs_of_lookup hm)

theorem mem_assignments (h : GroupInv n.topics g) {id : String} {m : MemberMeta}
    (hm : g.members.lookup id = some m) (pid : ℕ) :
    pid ∈ m.assignments ↔
      pid ∈ block g.partitions g.memberIDs.length (g.memberIDs.idxOf id) := by
  rw [h.share id m hm, ConsumerGroup.share, List.mem_toFinset]

theorem card_assignments (h : GroupInv n.topics g) {id : String} {m : MemberMeta}
    (hm : g.members.lookup id = some m) :
    m.assignments.card =
      (block g.partitions g.memberIDs.length (g.memberIDs.idxOf id)).length := by
  rw [h.share id m hm, ConsumerGroup.share,
    List.toFinset_card_of_nodup (nodup_block h.nodup_partitions _ _)]

theorem dealtOut (h : GroupInv n.topics g) : DealtOut n g := by
  have hpos : 0 < g.memberIDs.length := List.length_pos_of_ne_nil h.members
  refine ⟨?_, ⟨h.nodup_partitions, ?_⟩, fun id m hm pid hpid => ?_, fun pid hpid => ?_,
    fun id m id' m' hm hm' => ?_⟩
  · obtain ⟨id, hid⟩ := List.exists_mem_of_ne_nil _ h.members
    obtain ⟨m, hm⟩ := exists_lookup_of_mem_memberIDs hid
    exact ⟨id, m, hm⟩
  · obtain ⟨info, hinfo, hpart⟩ := h.partitions
    refine ⟨info, hinfo, fun pid => ?_⟩
    rw [hpart]
    exact (List.perm_insertionSort _ info.partitions.keys).mem_iff
  · exact mem_of_mem_block ((h.mem_assignments hm pid).mp hpid)
  · -- the member whose position is the number of the block
    obtain ⟨i, ⟨hi, hblock⟩, huniq⟩ := existsUnique_block h.nodup_partitions hpos hpid
    have hmem : g.memberIDs[i] ∈ g.memberIDs := List.getElem_mem hi
    obtain ⟨m, hm⟩ := exists_lookup_of_mem_memberIDs hmem
    refine ⟨g.memberIDs[i], ⟨m, hm, ?_⟩, ?_⟩
    · rw [h.mem_assignments hm, g.nodup_memberIDs.idxOf_getElem i hi]
      exact hblock
    · rintro id ⟨m', hm', hpid'⟩
      have hidx := huniq _ ⟨idxOf_lt hm', (h.mem_assignments hm' pid).mp hpid'⟩
      have hget := List.getElem?_idxOf (mem_memberIDs_of_lookup hm')
      rw [hidx, List.getElem?_eq_getElem hi] at hget
      exact (Option.some.inj hget).symm
  · rw [h.card_assignments hm, h.card_assignments hm']
    exact length_block_le g.partitions (idxOf_lt hm) (idxOf_lt hm')

end GroupInv

/-- **Consumer groups**: in every state that can be reached the partitions of a topic are
dealt out to the members of each of its groups, and two groups with the same members and
the same partitions, in whatever states, have the same assignment. -/
theorem groups_assigned {n n' : NameServerState}
    (hrun : Run NameServerState.step (fun _ _ _ => True) {} n)
    (hrun' : Run NameServerState.step (fun _ _ _ => True) {} n') :
    (∀ groupID g, n.consumerGroups.lookup groupID = some g → DealtOut n g) ∧
      ∀ groupID groupID' g g', n.consumerGroups.lookup groupID = some g →
        n'.consumerGroups.lookup groupID' = some g' →
        (∀ id, id ∈ g.members ↔ id ∈ g'.members) → g.partitions = g'.partitions →
        ∀ id m m', g.members.lookup id = some m → g'.members.lookup id = some m' →
          m.assignments = m'.assignments := by
  refine ⟨fun groupID g hg => (GroupsInv.of_run hrun groupID g hg).dealtOut, ?_⟩
  intro groupID groupID' g g' hg hg' hmembers hpart id m m' hm hm'
  rw [(GroupsInv.of_run hrun groupID g hg).share id m hm,
    (GroupsInv.of_run hrun' groupID' g' hg').share id m' hm', memberIDs_congr hmembers, hpart]

/-- Two members of a group of a topic with three partitions, after a third one left. -/
theorem groups_assigned_two :
    ∃ n g, n.consumerGroups.lookup "g" = some g ∧ g.memberIDs = ["a", "b"] ∧
      g.partitions = [0, 1, 2] ∧ DealtOut n g := by
  obtain ⟨n, hrun, hlookup⟩ : ∃ n, Run NameServerState.step (fun _ _ _ => True) {} n ∧
      (n.consumerGroups.lookup "g").any (fun g =>
        decide (g.memberIDs = ["a", "b"] ∧ g.partitions = [0, 1, 2])) = true :=
    exists_run_of_execWith
      [.register "x" "x:9092" "host", .createTopic "t" (.given (some 3)) [1],
        .joinGroup "g" "b" "t" 1, .joinGroup "g" "c" "t" 2, .joinGroup "g" "a" "t" 3,
        .leaveGroup "g" "c"]
      (by decide +kernel)
  obtain ⟨g, hg, hshape⟩ := (Option.any_eq_true _ _).mp hlookup
  obtain ⟨hids, hpart⟩ := of_decide_eq_true hshape
  exact ⟨n, g, hg, hids, hpart, (groups_assigned hrun hrun).1 "g" g hg⟩

end DistributedMQ.NameServer
