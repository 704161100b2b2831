import DistributedMQ.NameServer.Groups
import Mathlib.Data.Int.CardIntervalMod
import Mathlib.Data.List.GetD

/-!
# Where the partitions of a topic are placed (`nameserver.go` lines 145–219 and 367–375)

`handleCreateTopic` deals the replicas of a new topic out in turn: with `n` brokers available,
in whatever order the map gives them, partition `i` goes to the brokers at the positions `i`,
`i + 1` and `i + 2` modulo `n`, as far as there are so many, and is led by the first of them.

- `handleCreateTopic_cases`: a request is refused and changes nothing, or there is a new topic.
- `replicaIDs`: the brokers a partition is placed on. The topic lists their client addresses.
- `Placement`: what is promised about a topic with these partitions.
- `replica_placement`: every topic that is created has it.
-/

namespace DistributedMQ.NameServer

namespace NameServerState

/-! ## Creating a topic -/

/-- `handleCreateTopic` refuses and changes nothing, or creates the topic it names. -/
theorem handleCreateTopic_cases (n : NameServerState) (topic : String)
    (partitions : PartitionsField) (brokerIDs : List ℕ) :
    (∃ e, n.handleCreateTopic topic partitions brokerIDs = (n, .error e)) ∨
      ∃ count, topic ≠ "" ∧ partitions.count = .ok count ∧ n.topics.lookup topic = none ∧
        brokerIDs ≠ [] ∧
        n.handleCreateTopic topic partitions brokerIDs =
          ({ n with
             topics := n.topics.insert topic
               { topic, partitions := n.makePartitions brokerIDs count } },
            .ok (topic, count)) := by
  rw [handleCreateTopic]
  by_cases hname : topic = ""
  · rw [if_pos hname]
    exact Or.inl ⟨_, rfl⟩
  rw [if_neg hname]
  cases hcount : partitions.count with
  | error e => exact Or.inl ⟨e, rfl⟩
  | ok count =>
    cases hfound : n.topics.lookup topic with
    | some info => exact Or.inl ⟨_, rfl⟩
    | none =>
      by_cases hbrokers : brokerIDs = []
      · dsimp only
        rw [if_pos hbrokers]
        exact Or.inl ⟨_, rfl⟩
      · dsimp only
        rw [if_neg hbrokers]
        exact Or.inr ⟨count, hname, rfl, rfl, hbrokers, rfl⟩

theorem count_pos {partitions : PartitionsField} {count : ℕ} (h : partitions.count = .ok count) :
    0 < count := by
  cases partitions with
  | absent => exact Except.ok.inj h ▸ Nat.one_pos
  | given value =>
    cases value with
    | none => cases h
    | some k =>
      rw [PartitionsField.count] at h
      split at h
      · cases h
      · rw [← Except.ok.inj h]
        omega

theorem makePartitions_succ (n : NameServerState) (brokerIDs : List ℕ) (count : ℕ) :
    n.makePartitions brokerIDs (count + 1) =
      (n.makePartitions brokerIDs count).insert count (n.partitionInfo brokerIDs count) := by
  rw [makePartitions, List.range_succ, List.foldl_append]
  rfl

theorem lookup_makePartitions (n : NameServerState) (brokerIDs : List ℕ) (count i : ℕ) :
    (n.makePartitions brokerIDs count).lookup i =
      if i < count then some (n.partitionInfo brokerIDs i) else none := by
  induction count with
  | zero => rfl
  | succ count ih =>
    rw [makePartitions_succ, GoMap.lookup_insert_eq, ih]
    by_cases hi : i = count
    · rw [if_pos hi, if_pos (by omega), hi]
    · rw [if_neg hi]
      by_cases hlt : i < count
      · rw [if_pos hlt, if_pos (by omega)]
      · rw [if_neg hlt, if_neg (by omega)]

theorem fresh_makePartitions (n : NameServerState) (brokerIDs : List ℕ) (count : ℕ) :
    count ∉ n.makePartitions brokerIDs count := by
  rw [GoMap.mem_iff_exists_lookup, lookup_makePartitions, if_neg (lt_irrefl count)]
  rintro ⟨_, hnone⟩
  cases hnone

theorem len_makePartitions (n : NameServerState) (brokerIDs : List ℕ) (count : ℕ) :
    (n.makePartitions brokerIDs count).len = count := by
  induction count with
  | zero => rfl
  | succ count ih =>
    rw [makePartitions_succ, GoMap.len_insert_of_notMem (n.fresh_makePartitions brokerIDs count), ih]

/-- Partitions that have a property are counted by their numbers. -/
theorem countP_makePartitions (n : NameServerState) (brokerIDs : List ℕ)
    (P : PartitionInfo → Prop) [DecidablePred P] (count : ℕ) :
    (GoMap.values (n.makePartitions brokerIDs count)).countP (fun q => P q) =
      Nat.count (fun i => P (n.partitionInfo brokerIDs i)) count := by
  induction count with
  | zero => rfl
  | succ count ih =>
    have hfresh := n.fresh_makePartitions brokerIDs count
    rw [makePartitions_succ, GoMap.values, AList.entries_insert_of_notMem hfresh, List.map_cons,
      List.countP_cons, Nat.count_succ, ← ih, GoMap.values]
    simp only [decide_eq_true_eq]

/-! ## The brokers of a partition -/

/-- The brokers that partition `i` is placed on. -/
def replicaIDs (brokerIDs : List ℕ) (i : ℕ) : List ℕ :=
  (List.range (min 3 brokerIDs.length)).filterMap fun j => brokerIDs[(i + j) % brokerIDs.length]?

/-- `n.brokers[id].ClientAddr`. -/
def clientAddr (n : NameServerState) (id : ℕ) : String :=
  ((n.registry.brokers.lookup id).map BrokerInfo.clientAddr).getD ""

variable {n : NameServerState} {brokerIDs : List ℕ}

/-- The brokers by their positions. -/
theorem replicaIDs_eq (hne : brokerIDs ≠ []) (i : ℕ) :
    replicaIDs brokerIDs i = (List.range (min 3 brokerIDs.length)).map fun j =>
      brokerIDs.getD ((i + j) % brokerIDs.length) 0 := by
  rw [replicaIDs, ← List.filterMap_eq_map]
  refine List.filterMap_congr fun j _ => ?_
  have hlt : (i + j) % brokerIDs.length < brokerIDs.length :=
    Nat.mod_lt _ (List.length_pos_of_ne_nil hne)
  rw [List.getElem?_eq_getElem hlt, Function.comp_apply, List.getD_eq_getElem _ _ hlt]

theorem length_replicaIDs (hne : brokerIDs ≠ []) (i : ℕ) :
    (replicaIDs brokerIDs i).length = min 3 brokerIDs.length := by
  rw [replicaIDs_eq hne, List.length_map, List.length_range]

theorem replicaIDs_subset (i : ℕ) : replicaIDs brokerIDs i ⊆ brokerIDs := by
  intro id hid
  obtain ⟨j, -, hj⟩ := List.mem_filterMap.mp hid
  exact List.mem_of_getElem? hj

/-- Fewer than `n` steps around a circle of `n` do not lead back. -/
theorem add_mod_inj {i j k m : ℕ} (hj : j < m) (hk : k < m) (h : (i + j) % m = (i + k) % m) :
    j = k := by
  have hmod : j ≡ k [MOD m] := Nat.ModEq.add_left_cancel' i h
  exact hmod.eq_of_lt_of_lt hj hk

theorem nodup_replicaIDs (hne : brokerIDs ≠ []) (hnodup : brokerIDs.Nodup) (i : ℕ) :
    (replicaIDs brokerIDs i).Nodup := by
  rw [replicaIDs_eq hne]
  refine List.Nodup.map_on (fun j hj k hk heq => ?_) List.nodup_range
  have hpos : 0 < brokerIDs.length := List.length_pos_of_ne_nil hne
  have hlt : ∀ j, (i + j) % brokerIDs.length < brokerIDs.length := fun j => Nat.mod_lt _ hpos
  rw [List.getD_eq_getElem _ _ (hlt j), List.getD_eq_getElem _ _ (hlt k)] at heq
  have hj := List.mem_range.mp hj
  have hk := List.mem_range.mp hk
  exact add_mod_inj (by omega) (by omega) (hnodup.getElem_inj_iff.mp heq)

/-- The addresses that `handleCreateTopic` lists are those of the brokers. -/
theorem replicas_eq (hreg : brokerIDs ⊆ n.registry.brokers.keys) (i : ℕ) :
    n.replicas brokerIDs i = (replicaIDs brokerIDs i).map n.clientAddr := by
  rw [replicas, replicaIDs, List.map_filterMap]
  refine List.filterMap_congr fun j _ => ?_
  cases hid : brokerIDs[(i + j) % brokerIDs.length]? with
  | none => rfl
  | some id =>
    have hmem : id ∈ n.registry.brokers := AList.mem_keys.mpr (hreg (List.mem_of_getElem? hid))
    obtain ⟨broker, hbroker⟩ := GoMap.mem_iff_exists_lookup.mp hmem
    rw [Option.bind_some, Option.map_some, clientAddr, hbroker]
    rfl

/-- The leader stands at position `i` modulo the number of brokers. -/
theorem head?_replicaIDs (hne : brokerIDs ≠ []) (i : ℕ) :
    (replicaIDs brokerIDs i).head? = brokerIDs[i % brokerIDs.length]? := by
  have hpos : 0 < brokerIDs.length := List.length_pos_of_ne_nil hne
  obtain ⟨k, hk⟩ : ∃ k, min 3 brokerIDs.length = k + 1 := ⟨min 3 brokerIDs.length - 1, by omega⟩
  have hlt : i % brokerIDs.length < brokerIDs.length := Nat.mod_lt _ hpos
  rw [replicaIDs_eq hne, hk, List.range_succ_eq_map, List.map_cons, List.head?_cons,
    List.getElem?_eq_getElem hlt, Nat.add_zero, List.getD_eq_getElem _ _ hlt]

theorem exists_leader (hne : brokerIDs ≠ []) (i : ℕ) :
    ∃ id ∈ brokerIDs, (replicaIDs brokerIDs i).head? = some id := by
  have hlt : i % brokerIDs.length < brokerIDs.length :=
    Nat.mod_lt _ (List.length_pos_of_ne_nil hne)
  exact ⟨_, List.getElem_mem hlt, by rw [head?_replicaIDs hne, List.getElem?_eq_getElem hlt]⟩

/-! ## Balance -/

/-- How many of the first `count` partitions a broker leads. -/
def ledBy (brokerIDs : List ℕ) (count id : ℕ) : ℕ :=
  Nat.count (fun i => (replicaIDs brokerIDs i).head? = some id) count

/-- A broker leads the partitions whose number is its position, modulo the number of brokers. -/
theorem ledBy_eq (hnodup : brokerIDs.Nodup) {k : ℕ} (hk : k < brokerIDs.length) (count : ℕ) :
    ledBy brokerIDs count (brokerIDs[k]) =
      count / brokerIDs.length + if k < count % brokerIDs.length then 1 else 0 := by
  have hpos : 0 < brokerIDs.length := Nat.zero_lt_of_lt hk
  have hne : brokerIDs ≠ [] := List.ne_nil_of_length_pos hpos
  have hiff : ∀ i, (replicaIDs brokerIDs i).head? = some (brokerIDs[k]) ↔
      i ≡ k [MOD brokerIDs.length] := by
    intro i
    have hlt : i % brokerIDs.length < brokerIDs.length := Nat.mod_lt _ hpos
    rw [head?_replicaIDs hne, List.getElem?_eq_getElem hlt, Option.some_inj,
      hnodup.getElem_inj_iff, Nat.ModEq, Nat.mod_eq_of_lt hk]
  simp only [ledBy, hiff]
  rw [Nat.count_modEq_card _ hpos, Nat.mod_eq_of_lt hk]

theorem ledBy_le (hnodup : brokerIDs.Nodup) {a b : ℕ} (ha : a ∈ brokerIDs) (hb : b ∈ brokerIDs)
    (count : ℕ) : ledBy brokerIDs count a ≤ ledBy brokerIDs count b + 1 := by
  obtain ⟨j, hj, rfl⟩ := List.getElem_of_mem ha
  obtain ⟨k, hk, rfl⟩ := List.getElem_of_mem hb
  rw [ledBy_eq hnodup hj, ledBy_eq hnodup hk]
  split
  · split
    · omega
    · omega
  · split
    · omega
    · omega

end NameServerState

/-- How many partitions of a topic have the address as their leader. -/
def TopicInfo.led (info : TopicInfo) (addr : String) : ℕ :=
  (GoMap.values info.partitions).countP fun q => q.leader = addr

/-! ## The promise -/

/-- **Placement** of the partitions of a topic on the available brokers. -/
structure Placement (n : NameServerState) (brokerIDs : List ℕ) (count : ℕ) (info : TopicInfo) :
    Prop where
  /-- The partitions are numbered from 0. -/
  numbers : ∀ i, (∃ q, info.partitions.lookup i = some q) ↔ i < count
  partitionID : ∀ i q, info.partitions.lookup i = some q → q.partitionID = i
  /-- The replicas are the addresses of distinct brokers, three or as many as there are. -/
  replicas : ∀ i q, info.partitions.lookup i = some q →
    q.replicas = (NameServerState.replicaIDs brokerIDs i).map n.clientAddr ∧
      (NameServerState.replicaIDs brokerIDs i).length = min 3 brokerIDs.length ∧
      (NameServerState.replicaIDs brokerIDs i).Nodup ∧
      NameServerState.replicaIDs brokerIDs i ⊆ brokerIDs
  /-- The first replica leads, and is in sync. -/
  leader : ∀ i q, info.partitions.lookup i = some q →
    q.replicas.head? = some q.leader ∧ q.leader ∈ q.isr
  /-- No broker leads more than one partition more than another. -/
  balance : ∀ a ∈ brokerIDs, ∀ b ∈ brokerIDs,
    NameServerState.ledBy brokerIDs count a ≤ NameServerState.ledBy brokerIDs count b + 1
  /-- It is so for the addresses in the topic, too, if those of the brokers are distinct. -/
  balanceLeaders : (∀ a ∈ brokerIDs, ∀ b ∈ brokerIDs, n.clientAddr a = n.clientAddr b → a = b) →
    ∀ a ∈ brokerIDs, ∀ b ∈ brokerIDs,
      info.led (n.clientAddr a) ≤ info.led (n.clientAddr b) + 1

namespace NameServerState

variable {n : NameServerState} {brokerIDs : List ℕ}

/-- A new partition is led by the first of its brokers. -/
theorem leader_partitionInfo (hreg : brokerIDs ⊆ n.registry.brokers.keys) {i id : ℕ}
    (hid : (replicaIDs brokerIDs i).head? = some id) :
    (n.partitionInfo brokerIDs i).leader = n.clientAddr id := by
  show (n.replicas brokerIDs i).headD "" = _
  rw [replicas_eq hreg, List.headD_eq_head?_getD, List.head?_map, hid]
  rfl

theorem head?_replicas (hreg : brokerIDs ⊆ n.registry.brokers.keys) (hne : brokerIDs ≠ []) (i : ℕ) :
    (n.replicas brokerIDs i).head? = some (n.partitionInfo brokerIDs i).leader := by
  obtain ⟨id, -, hid⟩ := exists_leader hne i
  rw [leader_partitionInfo hreg hid, replicas_eq hreg, List.head?_map, hid]
  rfl

/-- With distinct addresses, the address of a broker leads what the broker leads. -/
theorem led_eq (hreg : brokerIDs ⊆ n.registry.brokers.keys) (hne : brokerIDs ≠ [])
    (hinj : ∀ a ∈ brokerIDs, ∀ b ∈ brokerIDs, n.clientAddr a = n.clientAddr b → a = b)
    {id : ℕ} (hmem : id ∈ brokerIDs) (topic : String) (count : ℕ) :
    TopicInfo.led { topic, partitions := n.makePartitions brokerIDs count } (n.clientAddr id) =
      ledBy brokerIDs count id := by
  have hiff : ∀ i, (n.partitionInfo brokerIDs i).leader = n.clientAddr id ↔
      (replicaIDs brokerIDs i).head? = some id := by
    intro i
    obtain ⟨leader, hleader, hhead⟩ := exists_leader hne i
    rw [leader_partitionInfo hreg hhead, hhead, Option.some_inj]
    exact ⟨hinj leader hleader id hmem, fun heq => heq ▸ rfl⟩
  rw [TopicInfo.led, countP_makePartitions n brokerIDs (fun q => q.leader = n.clientAddr id), ledBy]
  simp only [hiff]

theorem placement_makePartitions (hnodup : brokerIDs.Nodup)
    (hreg : brokerIDs ⊆ n.registry.brokers.keys) (hne : brokerIDs ≠ []) (topic : String)
    (count : ℕ) :
    Placement n brokerIDs count { topic, partitions := n.makePartitions brokerIDs count } := by
  have hfound : ∀ i q, (n.makePartitions brokerIDs count).lookup i = some q →
      i < count ∧ q = n.partitionInfo brokerIDs i := by
    intro i q hq
    rw [lookup_makePartitions] at hq
    split at hq
    · rename_i hlt
      exact ⟨hlt, (Option.some.inj hq).symm⟩
    · cases hq
  constructor
  -- the partitions are those below `count`
  · intro i
    constructor
    · rintro ⟨q, hq⟩
      exact (hfound i q hq).1
    · intro hlt
      exact ⟨_, by rw [lookup_makePartitions, if_pos hlt]⟩
  · intro i q hq
    obtain ⟨-, rfl⟩ := hfound i q hq
    rfl
  · intro i q hq
    obtain ⟨-, rfl⟩ := hfound i q hq
    exact ⟨replicas_eq hreg i, length_replicaIDs hne i, nodup_replicaIDs hne hnodup i,
      replicaIDs_subset i⟩
  -- the first replica leads
  · intro i q hq
    obtain ⟨-, rfl⟩ := hfound i q hq
    have hhead := head?_replicas hreg hne i
    exact ⟨hhead, List.mem_of_head? hhead⟩
  · intro a ha b hb
    exact ledBy_le hnodup ha hb count
  · intro hinj a ha b hb
    rw [led_eq hreg hne hinj ha, led_eq hreg hne hinj hb]
    exact ledBy_le hnodup ha hb count

end NameServerState

/-- **Replica placement.** With the available brokers in any order, a request for a new topic and
some number of partitions is granted, and the partitions are placed as promised; a request that
is refused leaves the topics as they were. -/
theorem replica_placement {n : NameServerState} {brokerIDs : List ℕ} (hnodup : brokerIDs.Nodup)
    (hreg : brokerIDs ⊆ n.registry.brokers.keys) (topic : String) (partitions : PartitionsField) :
    (topic ≠ "" → n.topics.lookup topic = none → brokerIDs ≠ [] →
      ∀ count, partitions.count = .ok count → ∃ info,
        n.handleCreateTopic topic partitions brokerIDs =
            ({ n with topics := n.topics.insert topic info }, .ok (topic, count)) ∧
          Placement n brokerIDs count info) ∧
      ∀ n' e, n.handleCreateTopic topic partitions brokerIDs = (n', .error e) →
        n'.topics = n.topics := by
  constructor
  · intro hname hnew hne count hcount
    refine ⟨_, ?_, NameServerState.placement_makePartitions hnodup hreg hne topic count⟩
    rw [NameServerState.handleCreateTopic, if_neg hname, hcount, hnew]
    dsimp only
    rw [if_neg hne]
  · intro n' e hrefused
    rcases n.handleCreateTopic_cases topic partitions brokerIDs with ⟨e', heq⟩ | ⟨_, _, _, _, _, heq⟩
    · rw [← (Prod.mk.inj (heq.symm.trans hrefused)).1]
    · cases (Prod.mk.inj (heq.symm.trans hrefused)).2

/-- Two registered brokers and five partitions. -/
theorem replica_placement_two :
    ∃ n : NameServerState, ∃ info, Placement n [2, 1] 5 info ∧
      n.handleCreateTopic "t" (.given (some 5)) [2, 1] =
        ({ n with topics := n.topics.insert "t" info }, .ok ("t", 5)) := by
  obtain ⟨n, -, hreg, hnew⟩ : ∃ n, Machine.Run NameServerState.step (fun _ _ _ => True) {} n ∧
      [2, 1] ⊆ n.registry.brokers.keys ∧ (n.topics.lookup "t").isNone = true :=
    Machine.exists_run_of_execWith [.register "1" "a" "", .register "2" "b" ""] (by decide +kernel)
  obtain ⟨info, heq, hplaced⟩ := (replica_placement (by decide) hreg "t" (.given (some 5))).1
    (by decide) (Option.isNone_iff_eq_none.mp hnew) (List.cons_ne_nil _ _) 5 rfl
  exact ⟨n, info, hplaced, heq⟩

end DistributedMQ.NameServer
