import DistributedMQ.Lib.Machine
import DistributedMQ.Raft.Types

/-!
# Namespaces (`broker/namespace/namespace.go`)

A namespace lists topics and access rules. The manager keeps the lists and, beside
them, the map `topicToNS` from a topic to its namespace; `CheckPermission` goes
through the map, and a topic without an entry is open to everybody.

The time stamps of a namespace and the map `userToNS` are written by the methods
below and read by none of them; they are left out.

- `OwnershipInv`: a namespace lists a topic exactly if the map gives it.
- `namespaces_own_topics`: so it is in every run in which `AddTopic` is called for no
  topic that another namespace lists, and then the permissions of a topic do not
  depend on what is done to other namespaces.
- `topic_in_two_namespaces`: `AddTopic` looks for the topic in its own namespace only.
- `QuotaInv`: in every run a namespace has at most as many topics as its quota allows.
- `addTopic_idempotent_iff`: adding a topic again changes nothing, and fails iff the namespace
  is full, since `AddTopic` looks at the quota first.
-/

namespace DistributedMQ.Broker

open Machine

/-- What of a quota is checked: only the number of topics. -/
structure Quota where
  maxTopics : ℤ := 0
deriving DecidableEq, Repr

/-- Any other string is an action, too. -/
inductive Action where
  | produce
  | consume
  | admin
  | other (name : String)
deriving DecidableEq, Repr

structure ACL where
  userID : String
  topic : String
  actions : List Action
  allow : Bool
deriving DecidableEq, Repr

structure Namespace where
  name : String
  topics : List String := []
  quota : Quota
  acls : List ACL := []
deriving DecidableEq, Repr

structure NamespaceManager where
  namespaces : GoMap String Namespace := ∅
  topicToNS : GoMap String String := ∅

namespace NamespaceManager

def createNamespace (nm : NamespaceManager) (name : String) (quota : Quota) :
    NamespaceManager × Except String Namespace :=
  match nm.namespaces.lookup name with
  | some _ => (nm, .error s!"namespace {name} already exists")
  | none =>
    let ns : Namespace := { name, quota }
    ({ nm with namespaces := nm.namespaces.insert name ns }, .ok ns)

def deleteNamespace (nm : NamespaceManager) (name : String) :
    NamespaceManager × Except String Unit :=
  match nm.namespaces.lookup name with
  | none => (nm, .error s!"namespace {name} not found")
  | some ns =>
    ({ topicToNS := ns.topics.foldl (fun m topic => m.erase topic) nm.topicToNS
       namespaces := nm.namespaces.erase name }, .ok ())

def addTopic (nm : NamespaceManager) (name topic : String) :
    NamespaceManager × Except String Unit :=
  match nm.namespaces.lookup name with
  | none => (nm, .error s!"namespace {name} not found")
  | some ns =>
    if ns.quota.maxTopics ≤ ns.topics.length ∧ 0 < ns.quota.maxTopics then
      (nm, .error s!"namespace {name} exceeded max topics limit")
    else if topic ∈ ns.topics then (nm, .ok ())
    else
      ({ namespaces := nm.namespaces.insert name { ns with topics := ns.topics ++ [topic] }
         topicToNS := nm.topicToNS.insert topic name }, .ok ())

def removeTopic (nm : NamespaceManager) (name topic : String) :
    NamespaceManager × Except String Unit :=
  match nm.namespaces.lookup name with
  | none => (nm, .error s!"namespace {name} not found")
  | some ns =>
    if topic ∈ ns.topics then
      -- the first occurrence
      ({ namespaces := nm.namespaces.insert name { ns with topics := ns.topics.erase topic }
         topicToNS := nm.topicToNS.erase topic }, .ok ())
    else (nm, .error s!"topic {topic} not found in namespace {name}")

def addACL (nm : NamespaceManager) (name userID topic : String) (actions : List Action)
    (allow : Bool) : NamespaceManager × Except String Unit :=
  match nm.namespaces.lookup name with
  | none => (nm, .error s!"namespace {name} not found")
  | some ns =>
    ({ nm with
       namespaces := nm.namespaces.insert name
         { ns with acls := ns.acls ++ [{ userID, topic, actions, allow }] } }, .ok ())

/-- The loop of `CheckPermission`: the first rule for the user, the topic and the action
decides. -/
def checkACLs (userID topic : String) (action : Action) : List ACL → Bool
  | [] => true
  | acl :: acls =>
    if acl.userID ≠ userID then checkACLs userID topic action acls
    else if acl.topic ≠ "" ∧ acl.topic ≠ topic then checkACLs userID topic action acls
    else if ∃ act ∈ acl.actions, act = action ∨ act = .admin then acl.allow
    else checkACLs userID topic action acls

def checkPermission (nm : NamespaceManager) (userID topic : String) (action : Action) :
    Except String Bool :=
  match nm.topicToNS.lookup topic with
  | none => .ok true
  | some nsName =>
    match nm.namespaces.lookup nsName with
    | none => .error s!"namespace not found for topic {topic}"
    | some ns => .ok (checkACLs userID topic action ns.acls)

end NamespaceManager

inductive NamespaceOp where
  | createNamespace (name : String) (quota : Quota)
  | deleteNamespace (name : String)
  | addTopic (name topic : String)
  | removeTopic (name topic : String)
  | addACL (name userID topic : String) (actions : List Action) (allow : Bool)

/-- The namespace an operation is on. -/
def NamespaceOp.name : NamespaceOp → String
  | .createNamespace name _ | .deleteNamespace name | .addTopic name _ | .removeTopic name _
  | .addACL name _ _ _ _ => name

namespace NamespaceManager

def step (nm : NamespaceManager) : NamespaceOp → Option NamespaceManager
  | .createNamespace name quota => some (nm.createNamespace name quota).1
  | .deleteNamespace name => some (nm.deleteNamespace name).1
  | .addTopic name topic => some (nm.addTopic name topic).1
  | .removeTopic name topic => some (nm.removeTopic name topic).1
  | .addACL name userID topic actions allow => some (nm.addACL name userID topic actions allow).1

/-- The namespace exists and has the topic in its list. -/
def Lists (nm : NamespaceManager) (name topic : String) : Prop :=
  ∃ ns, nm.namespaces.lookup name = some ns ∧ topic ∈ ns.topics

/-- `AddTopic` is called for no topic that another namespace lists. -/
def Exclusive (nm : NamespaceManager) (op : NamespaceOp) (_ : NamespaceManager) : Prop :=
  match op with
  | .addTopic name topic => ∀ x ∈ nm.namespaces.entries, topic ∈ x.2.topics → x.1 = name
  | _ => True

instance (nm : NamespaceManager) (op : NamespaceOp) (nm' : NamespaceManager) :
    Decidable (nm.Exclusive op nm') :=
  match op with
  | .addTopic _ _ => inferInstanceAs (Decidable (∀ x ∈ nm.namespaces.entries, _ → _))
  | .createNamespace _ _ | .deleteNamespace _ | .removeTopic _ _ | .addACL _ _ _ _ _ =>
    inferInstanceAs (Decidable True)

theorem Exclusive.eq_of_lists {nm nm' : NamespaceManager} {name topic : String}
    (h : nm.Exclusive (.addTopic name topic) nm') {other : String} (hl : nm.Lists other topic) :
    other = name := by
  obtain ⟨ns, hns, htopic⟩ := hl
  exact h ⟨other, ns⟩ (AList.mem_lookup_iff.mp hns) htopic

variable {nm nm' : NamespaceManager} {name topic : String}

/-- A namespace is replaced. -/
theorem lists_insert (ns : Namespace) (m : GoMap String String) (name' topic : String) :
    NamespaceManager.Lists { namespaces := nm.namespaces.insert name ns, topicToNS := m } name'
      topic ↔ if name' = name then topic ∈ ns.topics else nm.Lists name' topic := by
  rw [Lists]
  dsimp only
  rw [GoMap.lookup_insert_eq]
  split
  · constructor
    · rintro ⟨ns', heq, htopic⟩
      rwa [Option.some.inj heq]
    · exact fun htopic => ⟨ns, rfl, htopic⟩
  · rfl

theorem lists_erase (m : GoMap String String) (name' topic : String) :
    NamespaceManager.Lists { namespaces := nm.namespaces.erase name, topicToNS := m } name'
      topic ↔ name' ≠ name ∧ nm.Lists name' topic := by
  rw [Lists]
  dsimp only
  rw [GoMap.lookup_erase_eq]
  split
  · rename_i heq
    constructor
    · rintro ⟨ns, hns, _⟩
      cases hns
    · exact fun h => absurd heq h.1
  · rename_i hne
    exact ⟨fun h => ⟨hne, h⟩, fun h => h.2⟩

theorem lists_iff {ns : Namespace} (h : nm.namespaces.lookup name = some ns) :
    nm.Lists name topic ↔ topic ∈ ns.topics := by
  constructor
  · rintro ⟨ns', hns, htopic⟩
    rwa [← Option.some.inj (hns.symm.trans h)]
  · exact fun htopic => ⟨ns, h, htopic⟩

/-- **Frame.** An operation changes no other namespace. -/
theorem lookup_step_of_ne {op : NamespaceOp} (hst : nm.step op = some nm') (hne : name ≠ op.name) :
    nm'.namespaces.lookup name = nm.namespaces.lookup name := by
  cases op with
  | createNamespace other quota =>
    cases hst
    rw [createNamespace]
    split
    · rfl
    · exact AList.lookup_insert_ne hne
  | deleteNamespace other =>
    cases hst
    rw [deleteNamespace]
    split
    · rfl
    · exact AList.lookup_erase_ne hne
  | addTopic other topic =>
    cases hst
    rw [addTopic]
    split
    · rfl
    split_ifs
    · rfl
    · rfl
    · exact AList.lookup_insert_ne hne
  | removeTopic other topic =>
    cases hst
    rw [removeTopic]
    split
    · rfl
    split_ifs
    · exact AList.lookup_insert_ne hne
    · rfl
  | addACL other userID topic actions allow =>
    cases hst
    rw [addACL]
    split
    · rfl
    · exact AList.lookup_insert_ne hne

end NamespaceManager

/-! ## Who owns a topic -/

open NamespaceManager

/-- A topic is in the list of one namespace, the one the map has for it. -/
structure OwnershipInv (nm : NamespaceManager) : Prop where
  /-- The lists and the map agree. -/
  owns : ∀ name topic, nm.Lists name topic ↔ nm.topicToNS.lookup topic = some name
  nodup : ∀ name ns, nm.namespaces.lookup name = some ns → ns.topics.Nodup

namespace OwnershipInv

variable {nm nm' : NamespaceManager} {name topic : String} {ns : Namespace}

/-- A topic has one namespace. -/
theorem unique (h : OwnershipInv nm) {name' : String} (hl : nm.Lists name topic)
    (hl' : nm.Lists name' topic) : name = name' :=
  Option.some.inj (((h.owns name topic).mp hl).symm.trans ((h.owns name' topic).mp hl'))

/-- The namespaces keep their topics, and `name` may be a new one. -/
theorem insert_nodup (h : OwnershipInv nm) (hns : ns.topics.Nodup) {name' : String}
    {ns' : Namespace} (hlookup : AList.lookup name' (nm.namespaces.insert name ns) = some ns') :
    ns'.topics.Nodup := by
  rw [GoMap.lookup_insert_eq] at hlookup
  split at hlookup
  · cases hlookup
    exact hns
  · exact h.nodup name' ns' hlookup

theorem createNamespace (h : OwnershipInv nm) (name : String) (quota : Quota) :
    OwnershipInv (nm.createNamespace name quota).1 := by
  rw [NamespaceManager.createNamespace]
  split
  · exact h
  rename_i hnone
  refine ⟨fun name' topic => ?_, fun name' ns' => h.insert_nodup List.nodup_nil⟩
  rw [lists_insert, ← h.owns]
  split
  · -- nothing was listed under the new name
    rename_i heq
    subst heq
    constructor
    · exact fun hmem => absurd hmem List.not_mem_nil
    · rintro ⟨ns, hns, _⟩
      rw [hnone] at hns
      cases hns
  · rfl

theorem deleteNamespace (h : OwnershipInv nm) (name : String) :
    OwnershipInv (nm.deleteNamespace name).1 := by
  rw [NamespaceManager.deleteNamespace]
  split
  · exact h
  rename_i ns hns
  refine ⟨fun name' topic => ?_, fun name' ns' hlookup => ?_⟩
  · rw [lists_erase, GoMap.lookup_foldl_erase, h.owns]
    split
    · -- a topic of the deleted namespace has no other one
      rename_i hmem
      constructor
      · rintro ⟨hne, hl⟩
        exact absurd (h.unique ((h.owns name' topic).mpr hl) ⟨ns, hns, hmem⟩) hne
      · exact fun hnone => absurd hnone (Option.some_ne_none _).symm
    · rename_i hmem
      refine ⟨And.right, fun hl => ⟨?_, hl⟩⟩
      rintro rfl
      exact hmem ((lists_iff hns).mp ((h.owns name' topic).mpr hl))
  · rw [GoMap.lookup_erase_eq] at hlookup
    split at hlookup
    · cases hlookup
    · exact h.nodup name' ns' hlookup

theorem addTopic (h : OwnershipInv nm) (hg : nm.Exclusive (.addTopic name topic) nm') :
    OwnershipInv (nm.addTopic name topic).1 := by
  rw [NamespaceManager.addTopic]
  split
  · exact h
  rename_i ns hns
  split_ifs with hfull hmem
  -- full, or there already
  · exact h
  · exact h
  have hnodup : (ns.topics ++ [topic]).Nodup := by
    rw [← List.concat_eq_append]
    exact (h.nodup name ns hns).concat hmem
  refine ⟨fun name' topic' => ?_, fun name' ns' => h.insert_nodup hnodup⟩
  rw [lists_insert, GoMap.lookup_insert_eq]
  by_cases htopic : topic' = topic
  · -- nobody else lists the topic
    subst htopic
    rw [if_pos rfl]
    split
    · rename_i heq
      rw [heq]
      exact ⟨fun _ => rfl, fun _ => List.mem_append_right _ (List.mem_singleton_self _)⟩
    · rename_i hne
      constructor
      · exact fun hl => absurd (hg.eq_of_lists hl) hne
      · exact fun heq => absurd (Option.some.inj heq).symm hne
  · rw [if_neg htopic, ← h.owns]
    split
    · rename_i heq
      rw [heq, lists_iff hns, List.mem_append, List.mem_singleton]
      exact ⟨fun hl => hl.resolve_right htopic, Or.inl⟩
    · rfl

theorem removeTopic (h : OwnershipInv nm) (name topic : String) :
    OwnershipInv (nm.removeTopic name topic).1 := by
  rw [NamespaceManager.removeTopic]
  split
  · exact h
  rename_i ns hns
  split_ifs with hmem
  · have hnodup := h.nodup name ns hns
    refine ⟨fun name' topic' => ?_, fun name' ns' => h.insert_nodup (hnodup.erase topic)⟩
    rw [lists_insert, GoMap.lookup_erase_eq]
    by_cases htopic : topic' = topic
    · subst htopic
      rw [if_pos rfl]
      refine ⟨fun hl => ?_, fun hnone => absurd hnone (Option.some_ne_none _).symm⟩
      split at hl
      · exact absurd hl hnodup.not_mem_erase
      · rename_i hne
        exact absurd (h.unique hl ⟨ns, hns, hmem⟩) hne
    · rw [if_neg htopic, ← h.owns]
      split
      · rename_i heq
        rw [heq, lists_iff hns, List.mem_erase_of_ne htopic]
      · rfl
  · exact h

theorem addACL (h : OwnershipInv nm) (name userID topic : String) (actions : List Action)
    (allow : Bool) : OwnershipInv (nm.addACL name userID topic actions allow).1 := by
  rw [NamespaceManager.addACL]
  split
  · exact h
  rename_i ns hns
  have hnodup : ({ ns with
      acls := ns.acls ++ [{ userID, topic, actions, allow }] } : Namespace).topics.Nodup :=
    h.nodup name ns hns
  refine ⟨fun name' topic' => ?_, fun name' ns' => h.insert_nodup hnodup⟩
  rw [lists_insert, ← h.owns]
  split
  · rename_i heq
    rw [heq, lists_iff hns]
  · rfl

/-- Calls that take no topic of another namespace keep the lists and the map in step. -/
theorem step (h : OwnershipInv nm) {op : NamespaceOp} (hg : nm.Exclusive op nm')
    (hst : nm.step op = some nm') : OwnershipInv nm' := by
  cases op with
  | createNamespace name quota =>
    cases hst
    exact h.createNamespace name quota
  | deleteNamespace name =>
    cases hst
    exact h.deleteNamespace name
  | addTopic name topic =>
    cases hst
    exact h.addTopic hg
  | removeTopic name topic =>
    cases hst
    exact h.removeTopic name topic
  | addACL name userID topic actions allow =>
    cases hst
    exact h.addACL name userID topic actions allow

/-- They agree in every run of such calls. -/
theorem of_run (hrun : Run NamespaceManager.step Exclusive {} nm) : OwnershipInv nm := by
  refine hrun.invariant (P := OwnershipInv) ⟨fun name topic => ?_, fun name ns hns => ?_⟩ ?_
  · constructor
    · rintro ⟨ns, hns, _⟩
      cases hns
    · exact fun hnone => absurd hnone (Option.some_ne_none _).symm
  · exact absurd hns (Option.some_ne_none _).symm
  · intro u op v h hg hst
    exact h.step hg hst

/-- What is done to one namespace does not matter to the topics of another. -/
theorem checkPermission_step (h : OwnershipInv nm) {op : NamespaceOp} (hg : nm.Exclusive op nm')
    (hst : nm.step op = some nm') (hl : nm.Lists name topic) (hne : name ≠ op.name)
    (userID : String) (action : Action) :
    nm'.checkPermission userID topic action = nm.checkPermission userID topic action := by
  have hlookup := lookup_step_of_ne hst hne
  have hl' : nm'.Lists name topic := by
    obtain ⟨ns, hns, htopic⟩ := hl
    exact ⟨ns, hlookup.trans hns, htopic⟩
  rw [checkPermission, checkPermission, (h.owns name topic).mp hl,
    ((h.step hg hst).owns name topic).mp hl']
  dsimp only
  rw [hlookup]

end OwnershipInv

/-- **Ownership**: if `AddTopic` is called for no topic that another namespace lists, then
in every state the lists and the map agree, a topic is in one list only, and an operation
on another namespace does not change who may use it. -/
theorem namespaces_own_topics {nm : NamespaceManager}
    (hrun : Run NamespaceManager.step Exclusive {} nm) :
    (∀ name topic, nm.Lists name topic ↔ nm.topicToNS.lookup topic = some name) ∧
      (∀ name name' topic, nm.Lists name topic → nm.Lists name' topic → name = name') ∧
      ∀ op nm', nm.Exclusive op nm' → nm.step op = some nm' →
        ∀ name topic, nm.Lists name topic → name ≠ op.name → ∀ userID action,
          nm'.checkPermission userID topic action = nm.checkPermission userID topic action := by
  have hinv := OwnershipInv.of_run hrun
  refine ⟨hinv.owns, fun name name' topic hl hl' => hinv.unique hl hl', ?_⟩
  intro op nm' hg hst name topic hl hne userID action
  exact hinv.checkPermission_step hg hst hl hne userID action

/-- Two namespaces with a topic each; one of them is closed to a user. -/
def twoNamespaces : List NamespaceOp :=
  [.createNamespace "a" {}, .createNamespace "b" {}, .addTopic "a" "t", .addTopic "b" "u",
    .addACL "a" "eve" "" [.produce] false]

/-- Deleting the second namespace does not open the first one. -/
theorem namespaces_own_topics_two :
    ∃ nm nm' : NamespaceManager, nm.step (.deleteNamespace "b") = some nm' ∧
      nm.checkPermission "eve" "t" .produce = .ok false ∧
      nm'.checkPermission "eve" "t" .produce = .ok false := by
  obtain ⟨nm, nm', _, hrun, hg, hst, _, hl, hdenied⟩ : ∃ nm nm' nm'' : NamespaceManager,
      Run NamespaceManager.step Exclusive {} nm ∧ nm.Exclusive (.deleteNamespace "b") nm' ∧
      nm.step (.deleteNamespace "b") = some nm' ∧ Run NamespaceManager.step Exclusive nm' nm'' ∧
      nm.topicToNS.lookup "t" = some "a" ∧
      nm.checkPermission "eve" "t" .produce = .ok false :=
    exists_step_of_execWith twoNamespaces (.deleteNamespace "b") [] (by decide +kernel)
  obtain ⟨howns, _, hkept⟩ := namespaces_own_topics hrun
  have hsame := hkept _ _ hg hst "a" "t" ((howns "a" "t").mpr hl) (by decide) "eve" .produce
  exact ⟨nm, nm', hst, hdenied, hsame.trans hdenied⟩

/-- A second namespace takes the topic: it is in two lists, and a user the first one keeps
out gets in. -/
theorem topic_in_two_namespaces :
    ∃ nm nm', Run NamespaceManager.step (fun _ _ _ => True) {} nm ∧
      nm.step (.addTopic "b" "t") = some nm' ∧
      nm.Lists "a" "t" ∧ nm'.Lists "a" "t" ∧ nm'.Lists "b" "t" ∧
      nm'.topicToNS.lookup "t" ≠ some "a" ∧
      nm.checkPermission "eve" "t" .produce = .ok false ∧
      nm'.checkPermission "eve" "t" .produce = .ok true := by
  obtain ⟨nm, nm', hrun, hst, hla, hla', hlb', hP⟩ : ∃ nm nm' : NamespaceManager,
      Run NamespaceManager.step (fun _ _ _ => True) {} nm ∧
      nm.step (.addTopic "b" "t") = some nm' ∧
      (nm.namespaces.lookup "a").any (fun ns => decide ("t" ∈ ns.topics)) = true ∧
      (nm'.namespaces.lookup "a").any (fun ns => decide ("t" ∈ ns.topics)) = true ∧
      (nm'.namespaces.lookup "b").any (fun ns => decide ("t" ∈ ns.topics)) = true ∧
      nm'.topicToNS.lookup "t" ≠ some "a" ∧
      nm.checkPermission "eve" "t" .produce = .ok false ∧
      nm'.checkPermission "eve" "t" .produce = .ok true :=
    exists_last_step_of_execWith twoNamespaces (.addTopic "b" "t") (by decide +kernel)
  have hlists : ∀ {nm : NamespaceManager} {name : String},
      (nm.namespaces.lookup name).any (fun ns => decide ("t" ∈ ns.topics)) = true →
      nm.Lists name "t" := by
    intro nm name hany
    obtain ⟨ns, hns, hmem⟩ := (Option.any_eq_true _ _).mp hany
    exact ⟨ns, hns, of_decide_eq_true hmem⟩
  exact ⟨nm, nm', hrun, hst, hlists hla, hlists hla', hlists hlb', hP⟩

/-! ## Quotas -/

/-- The namespace has a quota and has used it up. -/
def Namespace.Full (ns : Namespace) : Prop :=
  0 < ns.quota.maxTopics ∧ (ns.topics.length : ℤ) = ns.quota.maxTopics

instance (ns : Namespace) : Decidable ns.Full := inferInstanceAs (Decidable (_ ∧ _))

/-- The topics do not exceed the quota, if there is one. -/
def Namespace.WithinQuota (ns : Namespace) : Prop :=
  0 < ns.quota.maxTopics → (ns.topics.length : ℤ) ≤ ns.quota.maxTopics

/-- What an operation may make of a namespace: its quota stays, and it gets no more topics or
one more while there was room. -/
inductive Namespace.Becomes (ns : Namespace) : Namespace → Prop where
  | fewer {ns' : Namespace} (quota : ns'.quota = ns.quota)
      (topics : ns'.topics.length ≤ ns.topics.length) : ns.Becomes ns'
  | added (topic : String)
      (room : ¬(ns.quota.maxTopics ≤ ns.topics.length ∧ 0 < ns.quota.maxTopics)) :
      ns.Becomes { ns with topics := ns.topics ++ [topic] }

theorem Namespace.Becomes.refl (ns : Namespace) : ns.Becomes ns := .fewer rfl le_rfl

theorem Namespace.WithinQuota.becomes {ns ns' : Namespace} (h : ns.WithinQuota)
    (hb : ns.Becomes ns') : ns'.WithinQuota := by
  intro hpos
  cases hb with
  | fewer quota topics =>
    have hle := h (quota ▸ hpos)
    rw [quota]
    omega
  | added topic room =>
    have hlt : (ns.topics.length : ℤ) < ns.quota.maxTopics := by
      by_contra hge
      exact room ⟨not_lt.mp hge, hpos⟩
    show ((ns.topics ++ [topic]).length : ℤ) ≤ ns.quota.maxTopics
    rw [List.length_append, List.length_singleton]
    omega

namespace NamespaceManager

variable {nm nm' : NamespaceManager} {name : String} {ns : Namespace}

/-- A namespace is replaced by what it may become. -/
theorem becomes_insert {name' : String} {ns' : Namespace}
    (hns : nm.namespaces.lookup name' = some ns) (hb : ns.Becomes ns')
    {ns'' : Namespace} (hlookup : AList.lookup name (nm.namespaces.insert name' ns') = some ns'') :
    ∃ ns₀, nm.namespaces.lookup name = some ns₀ ∧ ns₀.Becomes ns'' := by
  rw [GoMap.lookup_insert_eq] at hlookup
  split at hlookup
  · rename_i heq
    cases hlookup
    exact ⟨ns, heq ▸ hns, hb⟩
  · exact ⟨ns'', hlookup, .refl ns''⟩

/-- **What an operation does to a namespace.** It is a new one without topics, or what an old
one may become. -/
theorem becomes_of_step {op : NamespaceOp} (hst : nm.step op = some nm')
    (hns : nm'.namespaces.lookup name = some ns) :
    ns.topics = [] ∨ ∃ ns₀, nm.namespaces.lookup name = some ns₀ ∧ ns₀.Becomes ns := by
  cases op with
  | createNamespace other quota =>
    cases hst
    rw [createNamespace] at hns
    split at hns
    · exact Or.inr ⟨ns, hns, .refl ns⟩
    · rw [GoMap.lookup_insert_eq] at hns
      split at hns
      · exact Or.inl (Option.some.inj hns ▸ rfl)
      · exact Or.inr ⟨ns, hns, .refl ns⟩
  | deleteNamespace other =>
    cases hst
    rw [deleteNamespace] at hns
    split at hns
    · exact Or.inr ⟨ns, hns, .refl ns⟩
    · rw [GoMap.lookup_erase_eq] at hns
      split at hns
      · cases hns
      · exact Or.inr ⟨ns, hns, .refl ns⟩
  | addTopic other topic =>
    cases hst
    rw [addTopic] at hns
    split at hns
    · exact Or.inr ⟨ns, hns, .refl ns⟩
    rename_i found hfound
    split_ifs at hns with hfull hmem
    · exact Or.inr ⟨ns, hns, .refl ns⟩
    · exact Or.inr ⟨ns, hns, .refl ns⟩
    · exact Or.inr (becomes_insert hfound (.added topic hfull) hns)
  | removeTopic other topic =>
    cases hst
    rw [removeTopic] at hns
    split at hns
    · exact Or.inr ⟨ns, hns, .refl ns⟩
    rename_i found hfound
    split_ifs at hns with hmem
    · have hb : found.Becomes { found with topics := found.topics.erase topic } :=
        .fewer rfl List.length_erase_le
      exact Or.inr (becomes_insert hfound hb hns)
    · exact Or.inr ⟨ns, hns, .refl ns⟩
  | addACL other userID topic actions allow =>
    cases hst
    rw [addACL] at hns
    split at hns
    · exact Or.inr ⟨ns, hns, .refl ns⟩
    · rename_i found hfound
      have hb : found.Becomes
          { found with acls := found.acls ++ [{ userID, topic, actions, allow }] } :=
        .fewer rfl le_rfl
      exact Or.inr (becomes_insert hfound hb hns)

end NamespaceManager

/-- No namespace has more topics than its quota. -/
def QuotaInv (nm : NamespaceManager) : Prop :=
  ∀ name ns, nm.namespaces.lookup name = some ns → ns.WithinQuota

/-- A topic is added only where there is room for it, and quotas do not change. -/
theorem QuotaInv.step {nm nm' : NamespaceManager} (h : QuotaInv nm) {op : NamespaceOp}
    (hst : nm.step op = some nm') : QuotaInv nm' := by
  intro name ns hns
  rcases becomes_of_step hst hns with hnew | ⟨ns₀, hns₀, hb⟩
  · intro hpos
    rw [hnew]
    exact hpos.le
  · exact (h name ns₀ hns₀).becomes hb

/-- Quotas hold in every reachable state, whoever calls. -/
theorem QuotaInv.of_run {nm : NamespaceManager}
    (hrun : Run NamespaceManager.step (fun _ _ _ => True) {} nm) : QuotaInv nm := by
  refine hrun.invariant (P := QuotaInv) (fun name ns hns => ?_) fun _ _ _ h _ hst => h.step hst
  cases hns

/-- **Quotas.** In every state that can be reached the topics of a namespace are within its
quota, and adding one of them again succeeds and changes nothing iff the namespace is not full. -/
theorem addTopic_idempotent_iff {nm : NamespaceManager}
    (hrun : Run NamespaceManager.step (fun _ _ _ => True) {} nm) {name : String} {ns : Namespace}
    (hns : nm.namespaces.lookup name = some ns) :
    (0 < ns.quota.maxTopics → (ns.topics.length : ℤ) ≤ ns.quota.maxTopics) ∧
      ∀ topic ∈ ns.topics, nm.addTopic name topic = (nm, .ok ()) ↔ ¬ ns.Full := by
  have hquota := QuotaInv.of_run hrun name ns hns
  refine ⟨hquota, fun topic htopic => ?_⟩
  rw [addTopic, hns]
  dsimp only
  by_cases hfull : ns.Full
  · rw [if_pos ⟨hfull.2.ge, hfull.1⟩]
    refine iff_of_false ?_ (not_not.mpr hfull)
    intro heq
    cases (Prod.mk.inj heq).2
  · have hroom : ¬(ns.quota.maxTopics ≤ ns.topics.length ∧ 0 < ns.quota.maxTopics) := by
      rintro ⟨hge, hpos⟩
      exact hfull ⟨hpos, le_antisymm (hquota hpos) hge⟩
    rw [if_neg hroom, if_pos htopic]
    exact iff_of_true rfl hfull

/-- A namespace with one topic and room for another. -/
theorem addTopic_idempotent_iff_room :
    ∃ nm : NamespaceManager, nm.Lists "a" "t" ∧ nm.addTopic "a" "t" = (nm, .ok ()) := by
  obtain ⟨nm, hrun, hany⟩ : ∃ nm, Run NamespaceManager.step (fun _ _ _ => True) {} nm ∧
      (nm.namespaces.lookup "a").any (fun ns => decide ("t" ∈ ns.topics ∧ ¬ ns.Full)) = true :=
    exists_run_of_execWith [.createNamespace "a" { maxTopics := 2 }, .addTopic "a" "t"]
      (by decide +kernel)
  obtain ⟨ns, hns, hin⟩ := (Option.any_eq_true _ _).mp hany
  obtain ⟨hmem, hroom⟩ := of_decide_eq_true hin
  exact ⟨nm, ⟨ns, hns, hmem⟩, ((addTopic_idempotent_iff hrun hns).2 "t" hmem).mpr hroom⟩

/-- A namespace with a quota of one topic, which it has: adding this topic again is an error. -/
theorem full_namespace_rejects_its_topic :
    ∃ nm : NamespaceManager, Run NamespaceManager.step (fun _ _ _ => True) {} nm ∧
      (nm.namespaces.lookup "a").map Namespace.topics = some ["t"] ∧
      (nm.addTopic "a" "t").2 = .error "namespace a exceeded max topics limit" :=
  exists_run_of_execWith [.createNamespace "a" { maxTopics := 1 }, .addTopic "a" "t"]
    (by decide +kernel)

end DistributedMQ.Broker
