import DistributedMQ.NameServer.Registry
import DistributedMQ.Raft.ElectionSafety
import DistributedMQ.Raft.PeerViews

/-!
# How brokers find each other (`broker.go` lines 318–377)

A broker registers with the NameServer until it succeeds, asks once for the
peers, and starts its `RaftNode` with whatever it has heard: all brokers that are
registered at that moment, or nobody if the request fails.

- `Bootstrap`: the registry and the Raft processes of the brokers that have
  started; `Bootstrap.step` interleaves registrations, lookups and the steps of
  the processes freely.
- `Bootstrap.full`: the same with every registered broker started. As long as no
  lookup fails and nobody registers after the first start, all brokers hear of
  the same members, and the vote invariant of that cluster carries over
  (`BootInv`).
- `bootstrap_leader_unique`: then no two brokers lead in the same term.
- `two_lone_leaders`: a broker that asks too early and one whose request fails
  both lead in term 1.
-/

namespace DistributedMQ.Broker

open Machine Raft NameServer

/-- What the brokers are configured with, by their Raft address. -/
structure Site where
  clientAddr : String → String
  dataDir : String → String
  /-- The files a broker finds in the `raft` directory below `dataDir`. -/
  disk : String → Disk

def Site.raftDir (site : Site) (addr : String) : String := site.dataDir addr ++ "/raft"

/-- The NameServer, and the Raft processes; the members of the cluster are the
brokers that have called `NewRaftNode`. -/
structure Bootstrap where
  registry : Registry
  cluster : Cluster

inductive BootEvent where
  /-- The NameServer serves `/register` for a broker. -/
  | register (addr : String)
  /-- A broker asks for `/broker/peers` and starts its node; `none` is a request
  that fails. -/
  | lookup (addr : String) (answer : Option (List String))
  /-- The Raft process of a broker takes an event. -/
  | event (addr : String) (ev : Event)

/-- The peers of `registerAndInitializeRaft`. -/
def lookupPeers (addr : String) : Option (List String) → List String
  | none => []
  | some answer => answer.filter fun peer => peer ≠ addr

namespace Bootstrap

variable [GrowthPolicy]

/-- Nobody has registered yet. -/
def init (site : Site) : Bootstrap where
  registry := {}
  cluster :=
    { members := []
      procs := fun i => Proc.boot i [] (site.raftDir i) (site.disk i)
      net := [] }

/-- A broker joins the running processes. -/
def start (s : Bootstrap) (addr : String) (p : Proc) : Bootstrap :=
  { s with
    cluster :=
      { members := addr :: s.cluster.members
        procs := Function.update s.cluster.procs addr p
        net := s.cluster.net } }

/-- One step. A lookup comes after a registration and gets the addresses in some
order of the map; a broker starts once. -/
def step (site : Site) (s : Bootstrap) : BootEvent → Option Bootstrap
  | .register addr =>
    some { s with
      registry := (s.registry.handleRegister addr (site.clientAddr addr) "localhost").1 }
  | .lookup addr answer =>
    if addr ∈ s.registry.handleBrokerPeers ∧ addr ∉ s.cluster.members ∧
        ∀ peers ∈ answer, peers.Perm s.registry.handleBrokerPeers then
      some (s.start addr
        (Proc.boot addr (lookupPeers addr answer) (site.raftDir addr) (site.disk addr)))
    else none
  | .event addr ev =>
    if ev.Restarts then none
    else (s.cluster.step (addr, ev)).map fun cluster => { s with cluster := cluster }

/-- No lookup fails, a broker that is new to the NameServer registers before the
first broker starts, no election starts in the largest term and nobody changes
the membership. -/
def Complete (s : Bootstrap) (l : BootEvent) (s' : Bootstrap) : Prop :=
  match l with
  | .register addr => s.cluster.members = [] ∨ addr ∈ s.registry.handleBrokerPeers
  | .lookup _ answer => answer.isSome
  | .event addr ev => s.cluster.Orderly (addr, ev) s'.cluster

instance (s : Bootstrap) (l : BootEvent) (s' : Bootstrap) : Decidable (s.Complete l s') := by
  cases l <;> unfold Complete <;> infer_instance

/-- Every registered broker has started, and has been given the addresses in the
order of the registry. -/
def full (site : Site) (s : Bootstrap) : Cluster where
  members := s.registry.handleBrokerPeers
  procs i :=
    if i ∈ s.cluster.members then
      { s.cluster.procs i with peerList := s.registry.handleBrokerPeers }
    else Proc.boot i s.registry.handleBrokerPeers (site.raftDir i) (site.disk i)
  net := s.cluster.net

end Bootstrap

/-! ## The peer list plays no part between restarts -/

section peerList

theorem startElection_withPeerList (p : Proc) (l : List String) :
    ({ p with peerList := l } : Proc).startElection =
      ({ p.startElection.1 with peerList := l }, p.startElection.2) := by
  rw [Proc.startElection, Proc.startElection]
  dsimp only
  split
  · rfl
  · rfl

theorem onSendAppendEntries_withPeerList (p : Proc) (l : List String) (peer : String) :
    ({ p with peerList := l } : Proc).onSendAppendEntries peer =
      { p.onSendAppendEntries peer with peerList := l } := by
  rw [Proc.onSendAppendEntries, Proc.onSendAppendEntries]
  dsimp only
  split
  · rfl
  · rfl
  · rfl
  · rfl

variable [GrowthPolicy]

/-- A critical section other than a restart does not read the argument of
`NewRaftNode`. -/
theorem case_withPeerList {p p' : Proc} {ev : Event} {out : List Message} (l : List String)
    (hev : ¬ev.Restarts) (h : Proc.Case p ev p' out) :
    Proc.Case { p with peerList := l } ev { p' with peerList := l } out := by
  cases h with
  | leaderTimeout hlead => exact .leaderTimeout hlead
  | electionTimeout hlead =>
    have hcase := Proc.Case.electionTimeout (p := { p with peerList := l }) hlead
    rwa [startElection_withPeerList] at hcase
  | electionOver id e hfind hdone hover => exact .electionOver id e hfind hdone hover
  | electionRetry id e hfind hdone hcand =>
    have hcase := Proc.Case.electionRetry (p := { p with peerList := l }) id e hfind hdone hcand
    have hstart := startElection_withPeerList
      { p with elections := p.elections.filter fun e' => e'.id ≠ id } l
    rwa [hstart] at hcase
  | requestVote caller id args => exact .requestVote caller id args
  | voteFailed id peer => exact .voteFailed id peer
  | voteReply id peer reply e hfind hpeer => exact .voteReply id peer reply e hfind hpeer
  | sendAppendEntries peer hpeer =>
    have hcase := Proc.Case.sendAppendEntries (p := { p with peerList := l }) peer hpeer
    rwa [onSendAppendEntries_withPeerList] at hcase
  | marshal id c hfind hsent => exact .marshal id c hfind hsent
  | appendEntries caller id args => exact .appendEntries caller id args
  | appendFailed id => exact .appendFailed id
  | appendReply id reply c hfind => exact .appendReply id reply c hfind
  | sendSnapshot peer args hdue hargs => exact .sendSnapshot peer args hdue hargs
  | noSnapshot peer hdue hnone => exact .noSnapshot peer hdue hnone
  | installSnapshot caller id args => exact .installSnapshot caller id args
  | snapshotFailed id => exact .snapshotFailed id
  | snapshotReply id reply c hfind => exact .snapshotReply id reply c hfind
  | submitCommand topic partition data => exact .submitCommand topic partition data
  | applyCommittedEntries => exact .applyCommittedEntries
  | checkISR => exact .checkISR
  | addNode addr hok => exact .addNode addr hok
  | removeNode addr hok => exact .removeNode addr hok
  | changeConfig addr add hmem => exact .changeConfig addr add hmem
  | appendStableConfig => exact .appendStableConfig
  | restart => exact absurd trivial hev
  | dieServing request term hterm => exact absurd trivial hev

theorem step_withPeerList {p p' : Proc} {ev : Event} {out : List Message} (l : List String)
    (hev : ¬ev.Restarts) (h : p.step ev = some (p', out)) :
    ({ p with peerList := l } : Proc).step ev = some ({ p' with peerList := l }, out) := by
  have hnext : p.next ev = some p' := by
    rw [Proc.next, h]
    rfl
  have halive := Proc.alive_of_next hnext hev
  exact (case_withPeerList l hev (Proc.step_cases h)).step halive

end peerList

/-! ## The invariant -/

/-- No broker starts from files that were saved in the joint state. -/
def Site.Stable (site : Site) : Prop :=
  ∀ addr, ∀ st ∈ RaftNode.saved (site.raftDir addr) (site.disk addr), st.configState = .stable

section runs

variable [GrowthPolicy] {site : Site} {s s' : Bootstrap} {book : VoteBook String}

/-- The book accounts for the full cluster, and brokers that have not started
have not voted. -/
structure BootInv (site : Site) (s : Bootstrap) (book : VoteBook String) : Prop where
  registry : RegistryOk s.registry
  started : s.cluster.members ⊆ s.registry.handleBrokerPeers
  quiet : s.cluster.members = [] → s.cluster.net = []
  votes : VoteInv s.registry.handleBrokerPeers (s.full site) book
  fresh : ∀ i, i ∉ s.cluster.members → ∀ t, book i t = none

/-- Before the first start the full cluster is a booted one. -/
theorem full_eq_boot (hnone : s.cluster.members = []) (hquiet : s.cluster.net = []) :
    s.full site = Cluster.boot s.registry.handleBrokerPeers site.raftDir site.disk := by
  rw [Bootstrap.full, Cluster.boot, hnone, hquiet]
  simp only [List.not_mem_nil, if_false]

theorem bootInv_none (hstable : site.Stable) (hreg : RegistryOk s.registry)
    (hnone : s.cluster.members = []) (hquiet : s.cluster.net = []) :
    BootInv site s fun _ _ => none where
  registry := hreg
  started := hnone ▸ List.nil_subset _
  quiet _ := hquiet
  votes := by
    rw [full_eq_boot hnone hquiet]
    exact voteInv_boot fun i _ => RaftNode.newRaftNode_stable (hstable i)
  fresh _ _ _ := rfl

theorem full_procs_started {i : String} (hi : i ∈ s.cluster.members) :
    (s.full site).procs i =
      { s.cluster.procs i with peerList := s.registry.handleBrokerPeers } := if_pos hi

theorem full_procs_waiting {i : String} (hi : i ∉ s.cluster.members) :
    (s.full site).procs i =
      Proc.boot i s.registry.handleBrokerPeers (site.raftDir i) (site.disk i) := if_neg hi

/-- In the full cluster a start replaces one process. -/
theorem full_start (s : Bootstrap) (addr : String) (p : Proc) :
    (s.start addr p).full site = (s.full site).put addr
      { p with peerList := s.registry.handleBrokerPeers } [] := by
  refine congrArg₂ (Cluster.mk _) ?_ (List.append_nil _).symm
  funext i
  by_cases hi : i = addr
  · subst hi
    rw [Function.update_self]
    simp only [Bootstrap.start, Function.update_self, List.mem_cons_self, if_true]
  · rw [Function.update_of_ne hi]
    simp only [Bootstrap.start, Bootstrap.full, Function.update_of_ne hi, List.mem_cons, hi,
      false_or]

/-- In the full cluster a started broker takes the same step. -/
theorem full_put {addr : String} (haddr : addr ∈ s.cluster.members) (p : Proc)
    (out : List Message) :
    Bootstrap.full site { s with cluster := s.cluster.put addr p out } = (s.full site).put addr
      { p with peerList := s.registry.handleBrokerPeers } out := by
  refine congrArg₂ (Cluster.mk _) ?_ rfl
  funext i
  by_cases hi : i = addr
  · subst hi
    rw [Function.update_self]
    simp only [Cluster.put, Function.update_self, haddr, if_true]
  · rw [Function.update_of_ne hi]
    simp only [Cluster.put, Bootstrap.full, Function.update_of_ne hi]

/-- A broker registers. -/
theorem BootInv.register (hstable : site.Stable) (h : BootInv site s book) {addr : String}
    (hguard : s.cluster.members = [] ∨ addr ∈ s.registry.handleBrokerPeers) {clientAddr : String}
    {hostname : String} :
    BootInv site { s with registry := (s.registry.handleRegister addr clientAddr hostname).1 }
        book ∧
      (s.cluster.members ≠ [] →
        (s.registry.handleRegister addr clientAddr hostname).1.handleBrokerPeers =
          s.registry.handleBrokerPeers) := by
  by_cases hnone : s.cluster.members = []
  · -- nobody has voted, so the members may still change
    have hempty : book = fun _ _ => none := by
      funext i t
      exact h.fresh i (hnone ▸ List.not_mem_nil) t
    rw [hempty]
    exact ⟨bootInv_none hstable h.registry.handleRegister hnone (h.quiet hnone),
      fun hne => absurd hnone hne⟩
  -- brokers have started: the guard lets only known addresses in
  · have hknown : addr ∈ s.registry.handleBrokerPeers := hguard.resolve_left hnone
    have hsame : (s.registry.handleRegister addr clientAddr hostname).1.handleBrokerPeers =
        s.registry.handleBrokerPeers := by
      rcases handleRegister_addresses h.registry with hsame | ⟨-, hnew, -⟩
      · exact hsame
      · exact absurd hknown hnew
    have hfull : Bootstrap.full site
        { s with registry := (s.registry.handleRegister addr clientAddr hostname).1 } =
          s.full site := by
      simp only [Bootstrap.full, hsame]
    refine ⟨⟨h.registry.handleRegister, ?_, h.quiet, ?_, h.fresh⟩, fun _ => hsame⟩
    · exact hsame.symm ▸ h.started
    · rw [hfull]
      exact hsame.symm ▸ h.votes

/-- A broker that has heard of all members starts. -/
theorem BootInv.lookup (hstable : site.Stable) (h : BootInv site s book) {addr : String}
    {answer : List String} (hreg : addr ∈ s.registry.handleBrokerPeers)
    (hnew : addr ∉ s.cluster.members) (hperm : answer.Perm s.registry.handleBrokerPeers) :
    BootInv site (s.start addr (Proc.boot addr (lookupPeers addr (some answer))
      (site.raftDir addr) (site.disk addr))) book := by
  have hpeers : ∀ a, a ≠ addr →
      (a ∈ lookupPeers addr (some answer) ↔ a ∈ s.registry.handleBrokerPeers) := by
    intro a ha
    rw [lookupPeers, List.mem_filter, hperm.mem_iff]
    exact and_iff_left (decide_eq_true ha)
  have hmember := memberOk_boot hreg hpeers (RaftNode.newRaftNode_stable (hstable addr))
    (h.fresh addr hnew)
  refine ⟨h.registry, List.cons_subset.mpr ⟨hreg, h.started⟩, nofun, ?_, fun i hi => ?_⟩
  · -- the broker has sent nothing and counts nothing yet
    rw [full_start]
    refine h.votes.update hreg (.refl _) (fun _ _ _ => rfl) hmember ?_ nofun nofun nofun
    rw [full_procs_waiting hnew]
    exact le_rfl
  · exact h.fresh i fun hmem => hi (List.mem_cons_of_mem _ hmem)

/-- A started broker takes an event. -/
theorem BootInv.event (h : BootInv site s book) {addr : String} {ev : Event} {cluster : Cluster}
    (hev : ¬ev.Restarts) (hguard : s.cluster.Orderly (addr, ev) cluster)
    (hst : s.cluster.step (addr, ev) = some cluster) :
    ∃ book', book.Extends book' ∧ BootInv site { s with cluster := cluster } book' := by
  obtain ⟨haddr, hdel, p, out, hp, rfl⟩ := Cluster.step_inv hst
  have hreg : addr ∈ s.registry.handleBrokerPeers := h.started haddr
  have hproc : (s.full site).procs addr =
      { s.cluster.procs addr with peerList := s.registry.handleBrokerPeers } :=
    full_procs_started haddr
  have hfull : Bootstrap.full site { s with cluster := s.cluster.put addr p out } =
      (s.full site).put addr { p with peerList := s.registry.handleBrokerPeers } out :=
    full_put haddr p out
  -- the same step of the full cluster
  have hstep : (s.full site).step (addr, ev) =
      some (Bootstrap.full site { s with cluster := s.cluster.put addr p out }) := by
    have hp' := step_withPeerList s.registry.handleBrokerPeers hev hp
    rw [hfull]
    exact Cluster.step_eq hreg hdel (hproc ▸ hp')
  have hstatic : (s.full site).Static (addr, ev)
      (Bootstrap.full site { s with cluster := s.cluster.put addr p out }) := by
    intro i _
    rw [hfull]
    by_cases hi : i = addr
    · subst hi
      rw [Cluster.put_node_self, Cluster.node, hproc]
      have hsame := hguard.1 i haddr
      rw [Cluster.put_node_self] at hsame
      exact hsame
    · rw [Cluster.put_node_ne _ _ _ _ hi]
      exact ⟨rfl, rfl, rfl, rfl⟩
  have hwrap : (s.full site).NoWrap (addr, ev) := by
    rw [Cluster.NoWrap, Cluster.node, hproc]
    have hwrap := hguard.2
    cases ev <;> exact hwrap
  obtain ⟨book', hbook, hvotes⟩ := h.votes.step h.registry.nodup h.registry.nonempty hstatic hwrap
    (fun hre => absurd hre hev) hstep
  refine ⟨book', hbook.grows, h.registry, h.started, fun hnone => ?_, hvotes, fun i hi t => ?_⟩
  · rw [Cluster.put_members] at hnone
    rw [hnone] at haddr
    cases haddr
  · -- only the broker that steps may have voted
    cases hc : book' i t with
    | none => rfl
    | some c =>
      rcases hbook.cast i t c hc with hold | hcast
      · rw [h.fresh i hi] at hold
        cases hold
      · cases hcast with
        | own hv => exact absurd (hv ▸ haddr) hi
        | granted caller id args hl =>
          have hv : addr = i := congrArg Prod.fst hl
          exact absurd (hv ▸ haddr) hi

/-- **Step.** The book grows, and the members are fixed once a broker has
started. -/
theorem BootInv.step (hstable : site.Stable) {l : BootEvent} (h : BootInv site s book)
    (hguard : s.Complete l s') (hst : s.step site l = some s') :
    ∃ book', book.Extends book' ∧ BootInv site s' book' ∧
      (s.cluster.members ≠ [] → s'.cluster.members ≠ [] ∧
        s'.registry.handleBrokerPeers = s.registry.handleBrokerPeers) := by
  cases l with
  | register addr =>
    cases hst
    obtain ⟨hinv, hsame⟩ := h.register hstable hguard
    exact ⟨book, .refl _, hinv, fun hne => ⟨hne, hsame hne⟩⟩
  | lookup addr answer =>
    obtain ⟨peers, rfl⟩ := Option.isSome_iff_exists.mp hguard
    simp only [Bootstrap.step] at hst
    split at hst
    case isFalse => cases hst
    case isTrue hok =>
      cases hst
      exact ⟨book, .refl _, h.lookup hstable hok.1 hok.2.1 (hok.2.2 peers rfl),
        fun _ => ⟨nofun, rfl⟩⟩
  | event addr ev =>
    simp only [Bootstrap.step] at hst
    split at hst
    case isTrue => cases hst
    case isFalse hev =>
      obtain ⟨cluster, hcluster, rfl⟩ := Option.map_eq_some_iff.mp hst
      obtain ⟨book', hext, hinv⟩ := h.event hev hguard hcluster
      obtain ⟨-, -, p, out, -, rfl⟩ := Cluster.step_inv hcluster
      exact ⟨book', hext, hinv, fun hne => ⟨hne, rfl⟩⟩

/-- The book only grows along a run, and the addresses stay once a broker has started. -/
theorem BootInv.run (hstable : site.Stable) (h : BootInv site s book)
    (hrun : Run (Bootstrap.step site) Bootstrap.Complete s s') :
    ∃ book', book.Extends book' ∧ BootInv site s' book' ∧
      (s.cluster.members ≠ [] → s'.cluster.members ≠ [] ∧
        s'.registry.handleBrokerPeers = s.registry.handleBrokerPeers) := by
  refine hrun.invariant (P := fun t => ∃ book', book.Extends book' ∧ BootInv site t book' ∧
    (s.cluster.members ≠ [] → t.cluster.members ≠ [] ∧
      t.registry.handleBrokerPeers = s.registry.handleBrokerPeers))
    ⟨book, .refl _, h, fun hne => ⟨hne, rfl⟩⟩ ?_
  rintro t l u ⟨book', hext, hinv, hkeep⟩ hguard hst
  obtain ⟨book'', hext', hinv', hkeep'⟩ := hinv.step hstable hguard hst
  refine ⟨book'', hext.trans hext', hinv', fun hne => ?_⟩
  obtain ⟨hne', hsame⟩ := hkeep hne
  obtain ⟨hne'', hsame'⟩ := hkeep' hne'
  exact ⟨hne'', hsame'.trans hsame⟩

/-- A broker that leads has won its term. -/
theorem BootInv.won (h : BootInv site s book) {i : String} (hi : i ∈ s.cluster.members)
    (hlead : (s.cluster.node i).state = .leader) :
    book.Won s.registry.handleBrokerPeers (s.cluster.node i).currentTerm i := by
  have hmember := h.votes.member i (h.started hi)
  rw [full_procs_started hi] at hmember
  exact hmember.leader hlead

/-- **Bootstrap election safety.** Any number of brokers register with one
NameServer, look up their peers and run their Raft processes, in any order. If
no lookup fails and every broker has registered before the first one starts, no
two brokers ever lead in the same term, not even at different times. -/
theorem bootstrap_leader_unique (hstable : site.Stable)
    (hrun : Run (Bootstrap.step site) Bootstrap.Complete (Bootstrap.init site) s)
    (hrun' : Run (Bootstrap.step site) Bootstrap.Complete s s') {i j : String}
    (hi : i ∈ s.cluster.members) (hj : j ∈ s'.cluster.members)
    (hleadi : (s.cluster.node i).state = .leader) (hleadj : (s'.cluster.node j).state = .leader)
    (hterm : (s.cluster.node i).currentTerm = (s'.cluster.node j).currentTerm) : i = j := by
  have hinit : BootInv site (Bootstrap.init site) fun _ _ => none :=
    bootInv_none hstable registryOk_empty rfl rfl
  obtain ⟨book, -, hinv, -⟩ := hinit.run hstable hrun
  obtain ⟨book', hext, hinv', hkeep⟩ := hinv.run hstable hrun'
  have hwon := hext.won (hinv.won hi hleadi)
  have hwon' := hinv'.won hj hleadj
  rw [(hkeep (List.ne_nil_of_mem hi)).2, ← hterm] at hwon'
  exact VoteBook.winner_unique hwon hwon'

end runs

section traces

open scoped GrowthPolicy

/-- Three brokers with files of term 4; `v` is one entry ahead of the others, so
that it grants their requests. -/
def threeBrokers : Site where
  clientAddr addr := addr ++ "-client"
  dataDir _ := "data"
  disk addr :=
    Cluster.savedDisk ["a", "b", "v"] 4 0 (if addr = "v" then [{ term := 0, index := 1 }] else [])

theorem stable_threeBrokers : threeBrokers.Stable := by
  intro addr st hst
  rw [RaftNode.saved] at hst
  split at hst
  · cases hst
  · cases hst
    rfl

/-- All three register, `a` and `v` start, and `a` is elected with the vote of
`v`; `b` starts later. -/
theorem bootstrap_leader_unique_three :
    ∃ s, (s.cluster.node "a").state = .leader ∧ "b" ∉ s.cluster.members ∧
      ∀ s' j, Run (Bootstrap.step threeBrokers) Bootstrap.Complete s s' →
        j ∈ s'.cluster.members → (s'.cluster.node j).state = .leader →
        (s.cluster.node "a").currentTerm = (s'.cluster.node j).currentTerm → "a" = j := by
  obtain ⟨s, hrun, ha, hlead, hb⟩ : ∃ s,
      Run (Bootstrap.step threeBrokers) Bootstrap.Complete (Bootstrap.init threeBrokers) s ∧
        "a" ∈ s.cluster.members ∧ (s.cluster.node "a").state = .leader ∧
        "b" ∉ s.cluster.members :=
    exists_run_of_execWith
      [.register "a", .register "v", .register "b", .lookup "a" (some ["a", "b", "v"]),
        .register "a", .lookup "v" (some ["v", "a", "b"]), .event "a" .electionTimeout,
        .event "v" (.requestVote "a" 0
          { term := 5, candidateId := "a", lastLogIndex := 0, lastLogTerm := 0 }),
        .event "a" (.voteReply 0 "v" { term := 5, voteGranted := true })]
      (by decide +kernel)
  refine ⟨s, hlead, hb, fun s' j hrun' hj hlead' hterm => ?_⟩
  exact bootstrap_leader_unique stable_threeBrokers hrun hrun' ha hj hlead hlead' hterm

/-- Brokers without any files. -/
def freshBrokers : Site where
  clientAddr addr := addr ++ "-client"
  dataDir _ := "data"
  disk _ := {}

/-- **Two leaders.** `a` looks up its peers before `b` has registered, and the
lookup of `b` fails: both are alone and lead in term 1. -/
theorem two_lone_leaders :
    ∃ s, Run (Bootstrap.step freshBrokers) (fun _ _ _ => True) (Bootstrap.init freshBrokers) s ∧
      s.cluster.members = ["b", "a"] ∧ (s.cluster.node "a").state = .leader ∧
      (s.cluster.node "b").state = .leader ∧
      (s.cluster.node "a").currentTerm = 1 ∧ (s.cluster.node "b").currentTerm = 1 :=
  exists_run_of_execWith
    [.register "a", .lookup "a" (some ["a"]), .register "b", .lookup "b" none,
      .event "a" .electionTimeout, .event "b" .electionTimeout]
    (by decide +kernel)

end traces

end DistributedMQ.Broker
