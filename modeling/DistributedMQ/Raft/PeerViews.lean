import DistributedMQ.Raft.Views

/-!
# The two membership views (`raft.go` lines 67–109, 661–709 and 823–861)

`r.peers` comes from the peer list `NewRaftNode` is given and from applied
configuration entries; `r.currentConfig` comes from the state file and from
applied configuration entries. A restart puts the peer list of today beside the
configuration of the last save.

- `peers_agree`: as long as the peer list of every start is the saved
  configuration, and every `CONF_CHANGE` names only peers the node knows, the
  keys of `r.peers` are `r.currentConfig` without the node itself whenever the
  configuration is stable.
- `peers_disagree_after_restart`: a restart with a shorter peer list breaks it.
-/

namespace DistributedMQ.Raft

open Machine

/-! ## The maps -/

theorem GoMap.mem_keys_insert {V : Type} (m : GoMap String V) (a b : String) (v : V) :
    a ∈ (m.insert b v).keys ↔ a = b ∨ a ∈ m.keys := by
  rw [← AList.mem_keys, AList.mem_insert, AList.mem_keys]

theorem GoMap.mem_keys_erase {V : Type} (m : GoMap String V) (a b : String) :
    a ∈ (m.erase b).keys ↔ a ≠ b ∧ a ∈ m.keys := by
  rw [← AList.mem_keys, AList.mem_erase, AList.mem_keys]

theorem GoMap.mem_keys_of_get {m : GoMap String Bool} {a : String}
    (h : m.get a false = true) : a ∈ m.keys := by
  rw [← AList.mem_keys, ← AList.lookup_isSome]
  rw [GoMap.get] at h
  cases hlook : m.lookup a with
  | none =>
    rw [hlook] at h
    cases h
  | some b => rfl

/-- A configuration built from a list has its addresses as members. -/
theorem configOf_get (l : List String) (a : String) :
    (RaftNode.configOf l).get a false = true ↔ a ∈ l := by
  have hfold : ∀ (l : List String) (m : GoMap String Bool),
      GoMap.get (l.foldl (fun m a => m.insert a true) m) a false = true ↔
        GoMap.get m a false = true ∨ a ∈ l := by
    intro l
    induction l with
    | nil => simp
    | cons b l ih =>
      intro m
      rw [List.foldl_cons, ih, List.mem_cons]
      by_cases hab : a = b
      · subst hab
        simp
      · rw [GoMap.get_insert_ne m hab]
        tauto
  rw [RaftNode.configOf, hfold]
  simp [GoMap.get]

theorem mem_currentConfig_addPeers (self : String) (l : List String) :
    ∀ (r : RaftNode) (a : String), a ∈ (addPeers self r l).currentConfig.keys ↔
      a ∈ r.currentConfig.keys ∨ (a ∈ l ∧ a ≠ self) := by
  induction l with
  | nil => intro r a; simp [addPeers]
  | cons b l ih =>
    intro r a
    rw [addPeers]
    by_cases hb : b = self
    · rw [if_pos hb, ih, List.mem_cons]
      have hself : a = b → a ≠ self → False := fun hab hne => hne (hab.trans hb)
      tauto
    · rw [if_neg hb, ih, GoMap.mem_keys_insert, List.mem_cons]
      have hne : a = b → a ≠ self := fun hab => hab ▸ hb
      tauto

namespace RaftNode

variable {r : RaftNode}

theorem mem_peers_addLearner (r : RaftNode) (addr a : String) :
    a ∈ (r.addLearner addr).peers.keys ↔
      a ∈ r.peers.keys ∨ (a = addr ∧ a ≠ r.selfAddr) := by
  rw [addLearner]
  by_cases h : (r.peers.lookup addr).isSome ∨ addr = r.selfAddr
  · rw [if_pos h]
    refine ⟨Or.inl, fun hmem => hmem.elim id ?_⟩
    rintro ⟨rfl, hne⟩
    rcases h with h | h
    · exact AList.mem_keys.mp (AList.lookup_isSome.mp h)
    · exact absurd h hne
  · rw [if_neg h]
    show a ∈ (r.peers.insert addr _).keys ↔ _
    rw [GoMap.mem_keys_insert]
    have hne : a = addr → a ≠ r.selfAddr := fun ha => ha ▸ fun hs => h (Or.inr hs)
    tauto

/-- The new addresses join, the node itself does not. -/
theorem mem_peers_addLearners (l : List String) :
    ∀ (r : RaftNode) (a : String), a ∈ (l.foldl addLearner r).peers.keys ↔
      a ∈ r.peers.keys ∨ (a ∈ l ∧ a ≠ r.selfAddr) := by
  induction l with
  | nil => intro r a; simp
  | cons b l ih =>
    intro r a
    have hself : (r.addLearner b).selfAddr = r.selfAddr := by
      obtain ⟨ps, isr, ni, mi, h⟩ := r.addLearner_shape b
      rw [h]
    rw [List.foldl_cons, ih, mem_peers_addLearner, hself, List.mem_cons]
    tauto

theorem mem_peers_dropPeer (r : RaftNode) (addr a : String) :
    a ∈ (r.dropPeer addr).peers.keys ↔
      a ∈ r.peers.keys ∧ (a = addr → r.currentConfig.get addr false = true) := by
  rw [dropPeer]
  by_cases h : r.currentConfig.get addr false = true
  · rw [if_pos h]
    tauto
  · rw [if_neg h]
    show a ∈ (r.peers.erase addr).keys ↔ _
    rw [GoMap.mem_keys_erase]
    tauto

/-- The addresses outside of the configuration go. -/
theorem mem_peers_dropPeers (l : List String) :
    ∀ (r : RaftNode) (a : String), a ∈ (l.foldl dropPeer r).peers.keys ↔
      a ∈ r.peers.keys ∧ (a ∈ l → r.currentConfig.get a false = true) := by
  induction l with
  | nil => intro r a; simp
  | cons b l ih =>
    intro r a
    have hconfig : (r.dropPeer b).currentConfig = r.currentConfig := by
      obtain ⟨ps, isr, ni, mi, h⟩ := r.dropPeer_shape b
      rw [h]
    rw [List.foldl_cons, ih, mem_peers_dropPeer, hconfig, List.mem_cons]
    constructor
    · rintro ⟨⟨hmem, hb⟩, hl⟩
      exact ⟨hmem, fun ha => ha.elim (fun hab => hab ▸ hb hab) hl⟩
    · rintro ⟨hmem, hall⟩
      exact ⟨⟨hmem, fun hab => hab ▸ hall (Or.inl hab)⟩, fun ha => hall (Or.inr ha)⟩

/-! ## A node is not its own peer -/

/-- The node is `addr` and does not list itself as a peer. -/
structure Excludes (addr : String) (r : RaftNode) : Prop where
  name : r.selfAddr = addr
  peers : addr ∉ r.peers.keys

theorem Excludes.applyConfigChangeLocked {self : String} {e : LogEntry} (h : Excludes self r) :
    Excludes self (r.applyConfigChangeLocked e) := by
  rw [RaftNode.applyConfigChangeLocked]
  split
  · rename_i cfg htype hcfg
    obtain ⟨ps, isr, ni, mi, hshape⟩ := foldl_shape addLearner_shape cfg.newPeers
      { r with
        currentConfig := configOf cfg.oldPeers
        newConfig := some (configOf cfg.newPeers)
        configState := .joint }
    refine ⟨(congrArg selfAddr hshape).trans h.name, ?_⟩
    rw [mem_peers_addLearners]
    rintro (hmem | ⟨-, hne⟩)
    · exact h.peers hmem
    · exact hne h.name.symm
  · rename_i cfg htype hcfg
    obtain ⟨ps, isr, ni, mi, hshape⟩ := foldl_shape dropPeer_shape r.peers.keys
      { r with
        currentConfig := configOf cfg.newPeers
        newConfig := none
        configState := .stable }
    refine ⟨(congrArg selfAddr hshape).trans h.name, ?_⟩
    rw [mem_peers_dropPeers]
    exact fun hmem => h.peers hmem.1
  · exact h

theorem viewRule_excludes [GrowthPolicy] (self : String) :
    ViewRule (Excludes self) (fun _ _ => True) fun _ _ => True where
  frame := by
    intro r r' hviews h
    exact ⟨(selfAddr_of_views hviews).trans h.name, peers_of_views hviews ▸ h.peers⟩
  own := by
    intro r e h _ _
    exact ⟨h.name, h.peers⟩
  change := by
    intro r e new h _ _
    exact ⟨h.name, h.peers⟩
  merge := by
    intro r args h _
    exact ⟨h.name, h.peers⟩
  apply := by
    intro r e h _ _
    by_cases hconf : e.type = .jointConsensus ∨ e.type = .confChange
    · rw [applyEntry_config hconf]
      exact Excludes.applyConfigChangeLocked ⟨h.name, h.peers⟩
    · rw [applyEntry_data hconf]
      exact ⟨h.name, h.peers⟩

/-- An installed snapshot replaces the log, not the maps. -/
theorem Excludes.installSnapshot [GrowthPolicy] {self : String} {args : InstallSnapshotArgs}
    (h : Excludes self r) : Excludes self (r.installSnapshot args).1 := by
  have rule := viewRule_excludes self
  have hobs : Excludes self (r.observeTerm args.term) :=
    rule.frame (r.views_observeTerm args.term) h
  by_cases hinstall : r.Installs args
  · rw [installSnapshot_accept hinstall, acceptSnapshot]
    refine rule.frame (views_saveState _) ?_
    exact ⟨hobs.name, hobs.peers⟩
  · exact rule.installSnapshot h hinstall

theorem excludes_newRaftNode [GrowthPolicy] (self : String) (peers : List String) (dir : String)
    (disk : Disk) : Excludes self (newRaftNode self peers dir disk) := by
  refine ⟨newRaftNode_selfAddr self peers dir disk, ?_⟩
  rw [mem_peers_newRaftNode]
  exact fun hmem => hmem.2 rfl

/-- **Step.** No event makes a node its own peer. -/
theorem Excludes.next [GrowthPolicy] {self : String} {p p' : Proc} {ev : Event}
    (h : Excludes self p.node) (hst : p.next ev = some p') : Excludes self p'.node := by
  by_cases hev : ev.Restarts
  · obtain ⟨r, hr, rfl⟩ := Proc.next_restarts hst hev
    have hname : r.selfAddr = self := by
      rcases hr with rfl | ⟨term, rfl⟩
      · exact h.name
      · exact (selfAddr_of_views (p.node.views_observeTerm term)).trans h.name
    exact hname ▸ excludes_newRaftNode _ _ _ _
  · rcases (viewRule_excludes self).next_snapshot h hst hev (fun _ => h.installSnapshot)
      (fun _ _ _ _ _ => trivial) (fun _ _ => appliesAll_true _ _) with hnext | ⟨-, r, hr, -, hnode⟩
    · exact hnext
    · rw [hnode]
      exact ⟨hr.name, hr.peers⟩

/-! ## The agreement -/

/-- Whenever the configuration is stable, the peers are the other members. -/
structure Agrees (r : RaftNode) : Prop where
  self : r.selfAddr ∉ r.peers.keys
  stable : r.configState = .stable →
    ∀ a, a ∈ r.peers.keys ↔ a ∈ r.currentConfig.keys ∧ a ≠ r.selfAddr

/-- A `CONF_CHANGE` names only addresses the node knows. -/
def KnowsPeers (r : RaftNode) (e : LogEntry) : Prop :=
  e.type = .confChange → ∀ cfg ∈ e.config, ∀ a ∈ cfg.newPeers, a ≠ r.selfAddr → a ∈ r.peers.keys

instance (r : RaftNode) (e : LogEntry) : Decidable (r.KnowsPeers e) :=
  inferInstanceAs (Decidable (_ → _))

theorem Agrees.applyConfigChangeLocked {e : LogEntry} (h : Agrees r) (hknows : r.KnowsPeers e) :
    Agrees (r.applyConfigChangeLocked e) := by
  have hex : Excludes r.selfAddr (r.applyConfigChangeLocked e) :=
    Excludes.applyConfigChangeLocked ⟨rfl, h.self⟩
  refine ⟨hex.name ▸ hex.peers, ?_⟩
  rw [hex.name, RaftNode.applyConfigChangeLocked]
  split
  · rename_i cfg htype hcfg
    obtain ⟨ps, isr, ni, mi, hshape⟩ := foldl_shape addLearner_shape cfg.newPeers
      { r with
        currentConfig := configOf cfg.oldPeers
        newConfig := some (configOf cfg.newPeers)
        configState := .joint }
    rw [hshape]
    exact nofun
  · rename_i cfg htype hcfg
    obtain ⟨ps, isr, ni, mi, hshape⟩ := foldl_shape dropPeer_shape r.peers.keys
      { r with
        currentConfig := configOf cfg.newPeers
        newConfig := none
        configState := .stable }
    have hconfig := congrArg currentConfig hshape
    intro _ a
    rw [hconfig, mem_peers_dropPeers]
    show a ∈ r.peers.keys ∧ (a ∈ r.peers.keys → (configOf cfg.newPeers).get a false = true) ↔
      a ∈ (configOf cfg.newPeers).keys ∧ a ≠ r.selfAddr
    rw [configOf_get, mem_keys_configOf]
    constructor
    · rintro ⟨hmem, hnew⟩
      exact ⟨hnew hmem, fun ha => h.self (ha ▸ hmem)⟩
    · rintro ⟨hnew, hne⟩
      exact ⟨hknows htype cfg hcfg a hnew hne, fun _ => hnew⟩
  · exact h.stable

theorem viewRule_agrees [GrowthPolicy] : ViewRule Agrees KnowsPeers fun _ _ => True where
  frame := by
    intro r r' hviews h
    have hpeers := peers_of_views hviews
    have hself := selfAddr_of_views hviews
    refine ⟨by rw [hpeers, hself]; exact h.self, fun hstable => ?_⟩
    rw [hpeers, hself, currentConfig_of_views hviews]
    exact h.stable ((configState_of_views hviews).symm.trans hstable)
  own := by
    intro r e h _ _
    exact ⟨h.self, h.stable⟩
  change := by
    intro r e new h _ _
    exact ⟨h.self, nofun⟩
  merge := by
    intro r args h _
    exact ⟨h.self, h.stable⟩
  apply := by
    intro r e h _ hknows
    have hnext : Agrees { r with lastApplied := r.lastApplied + 1 } := ⟨h.self, h.stable⟩
    by_cases hconf : e.type = .jointConsensus ∨ e.type = .confChange
    · rw [applyEntry_config hconf]
      exact hnext.applyConfigChangeLocked (by exact hknows)
    · rw [applyEntry_data hconf]
      exact ⟨h.self, h.stable⟩

/-- An installed snapshot replaces the log, not the maps. -/
theorem Agrees.installSnapshot [GrowthPolicy] {args : InstallSnapshotArgs} (h : Agrees r) :
    Agrees (r.installSnapshot args).1 := by
  have hobs : Agrees (r.observeTerm args.term) :=
    viewRule_agrees.frame (r.views_observeTerm args.term) h
  by_cases hinstall : r.Installs args
  · rw [installSnapshot_accept hinstall, acceptSnapshot]
    refine viewRule_agrees.frame (views_saveState _) ?_
    exact ⟨hobs.self, hobs.stable⟩
  · exact viewRule_agrees.installSnapshot h hinstall

/-! ## Starts -/

/-- What `NewRaftNode` finds in the state file. -/
def saved (dir : String) (disk : Disk) : Option SavedState :=
  if dir = "" then none else disk.stateFile

/-- The peer list of a start is the stable configuration that was saved. -/
def ListFits (self : String) (peers : List String) (dir : String) (disk : Disk) : Prop :=
  ∀ st ∈ saved dir disk, st.configState = .stable →
    (∀ a ∈ peers, a ≠ self → a ∈ st.currentConfig.keys) ∧
      ∀ a ∈ st.currentConfig.keys, a ≠ self → a ∈ peers

instance (self : String) (peers : List String) (dir : String) (disk : Disk) :
    Decidable (ListFits self peers dir disk) :=
  inferInstanceAs (Decidable (∀ st ∈ saved dir disk, _))

/-- On an empty `dataDir` any peer list fits. -/
theorem listFits_fresh (self : String) (peers : List String) (dir : String) :
    ListFits self peers dir {} := by
  intro st hst
  simp [saved] at hst

variable [GrowthPolicy]

/-- A started node has the saved configuration, or the one of its peer list. -/
theorem newRaftNode_config (self : String) (peers : List String) (dir : String) (disk : Disk) :
    (∀ st ∈ saved dir disk,
      (newRaftNode self peers dir disk).configState = st.configState ∧
        (newRaftNode self peers dir disk).currentConfig = st.currentConfig) ∧
      (saved dir disk = none → (newRaftNode self peers dir disk).currentConfig =
        (addPeers self (blankNode self dir disk) peers).currentConfig) := by
  obtain ⟨ps, cc, isr, h⟩ := addPeers_shape self peers (blankNode self dir disk)
  rw [newRaftNode, h, saved]
  by_cases hdir : dir = ""
  · simp [hdir, loadState, blankNode]
  · cases hst : disk.stateFile with
    | none => simp [hdir, loadState, blankNode, hst]
    | some st =>
      simp only [hdir, loadState, blankNode, hst, if_false, loadLogEntries]
      refine ⟨?_, fun hnone => absurd hnone (Option.some_ne_none st)⟩
      rintro st' hst'
      cases hst'
      split
      · exact ⟨rfl, rfl⟩
      · split
        · exact ⟨rfl, rfl⟩
        · exact ⟨rfl, rfl⟩

/-- A node that has not saved a joint configuration starts in a stable one. -/
theorem newRaftNode_stable {self : String} {peers : List String} {dir : String} {disk : Disk}
    (h : ∀ st ∈ saved dir disk, st.configState = .stable) :
    (newRaftNode self peers dir disk).configState = .stable := by
  cases hst : saved dir disk with
  | some st => exact ((newRaftNode_config self peers dir disk).1 st hst).1.trans (h st hst)
  | none =>
    obtain ⟨ps, cc, isr, hshape⟩ := addPeers_shape self peers (blankNode self dir disk)
    rw [newRaftNode, hshape]
    rw [saved] at hst
    by_cases hdir : dir = ""
    · simp [hdir, loadState, blankNode]
    · rw [if_neg hdir] at hst
      simp [hdir, loadState, blankNode, hst]

theorem agrees_newRaftNode {self : String} {peers : List String} {dir : String} {disk : Disk}
    (hfit : ListFits self peers dir disk) : Agrees (newRaftNode self peers dir disk) := by
  obtain ⟨hsaved, hfresh⟩ := newRaftNode_config self peers dir disk
  refine ⟨?_, fun hstable a => ?_⟩
  · rw [newRaftNode_selfAddr, mem_peers_newRaftNode]
    exact fun hmem => hmem.2 rfl
  · rw [mem_peers_newRaftNode, newRaftNode_selfAddr]
    cases hst : saved dir disk with
    | none =>
      rw [hfresh hst, mem_currentConfig_addPeers]
      have hblank : a ∈ (blankNode self dir disk).currentConfig.keys ↔ a = self := by
        show a ∈ ((∅ : GoMap String Bool).insert self true).keys ↔ _
        rw [GoMap.mem_keys_insert]
        simp
      rw [hblank]
      tauto
    | some st =>
      obtain ⟨hstate, hconfig⟩ := hsaved st hst
      obtain ⟨hsub, hsup⟩ := hfit st hst (hstate.symm.trans hstable)
      rw [hconfig]
      constructor
      · rintro ⟨hmem, hne⟩
        exact ⟨hsub a hmem hne, hne⟩
      · rintro ⟨hmem, hne⟩
        exact ⟨hsup a hmem hne, hne⟩

end RaftNode

/-! ## Runs with restarts -/

/-- A process that may be restarted with another peer list. -/
inductive PeerEvent where
  | event (ev : Event)
  /-- The process stops, possibly right after it has saved a newer term, and
  `NewRaftNode` starts it again on its `dataDir`. -/
  | restart (term : Option ℕ) (peers : List String)

namespace Proc

/-- The node whose files a restart finds. -/
def stopped (p : Proc) (term : Option ℕ) : RaftNode :=
  match term with
  | none => p.node
  | some term => p.node.observeTerm term

variable [GrowthPolicy]

def peerStep (p : Proc) : PeerEvent → Option Proc
  | .event ev => if ev.Restarts then none else p.next ev
  | .restart term peers => some { p with node := p.stopped term, peerList := peers }.restart

/-- A restart gets the saved configuration as its peer list, and a `CONF_CHANGE`
that is applied names only addresses the node knows. -/
def PeersFit (p : Proc) (l : PeerEvent) (_ : Proc) : Prop :=
  match l with
  | .event ev =>
    ∀ r ∈ p.applying ev, r.AppliesAll RaftNode.KnowsPeers (r.commitIndex - r.lastApplied)
  | .restart term peers =>
    let r := p.stopped term
    RaftNode.ListFits r.selfAddr peers r.dataDir r.disk

end Proc

section runs

variable [GrowthPolicy] {p p' : Proc} {l : PeerEvent}

/-- By a step that fits, the peers of a stable configuration stay its other members. -/
theorem agrees_step (h : p.node.Agrees) (hguard : p.PeersFit l p')
    (hst : p.peerStep l = some p') : p'.node.Agrees := by
  cases l with
  | event ev =>
    simp only [Proc.peerStep] at hst
    split at hst
    case isTrue => cases hst
    case isFalse hev =>
    rcases RaftNode.viewRule_agrees.next_snapshot h hst hev (fun _ => h.installSnapshot)
      (fun _ _ _ _ _ => trivial) (fun r hr => hguard r hr) with hagrees | ⟨-, r, hr, -, hnode⟩
    · exact hagrees
    · rw [hnode]
      exact ⟨hr.self, hr.stable⟩
  | restart term peers =>
    cases hst
    exact RaftNode.agrees_newRaftNode hguard

/-- **Membership views agree.** Start a node with a peer list that fits its
files, let it serve any events and restart it any number of times. As long as
every restart gets the saved configuration as its peer list, and every applied
`CONF_CHANGE` names only addresses the node knows, the keys of `r.peers` are
those of `r.currentConfig` without the node's own whenever the configuration is
stable. -/
theorem peers_agree {self : String} {peers : List String} {dir : String} {disk : Disk}
    (hfit : RaftNode.ListFits self peers dir disk)
    (hrun : Run Proc.peerStep Proc.PeersFit (Proc.boot self peers dir disk) p)
    (hstable : p.node.configState = .stable) (a : String) :
    a ∈ p.node.peers.keys ↔ a ∈ p.node.currentConfig.keys ∧ a ≠ p.node.selfAddr := by
  have hagrees : p.node.Agrees := by
    refine hrun.invariant (P := fun p => p.node.Agrees) (RaftNode.agrees_newRaftNode hfit) ?_
    intro p l p' h hguard hst
    exact agrees_step h hguard hst
  exact hagrees.stable hstable a

end runs

instance decidableAppliesAll (Q : RaftNode → LogEntry → Prop) [∀ r e, Decidable (Q r e)] :
    ∀ (k : ℕ) (r : RaftNode), Decidable (r.AppliesAll Q k)
  | 0, _ => isTrue trivial
  | k + 1, r => by
    unfold RaftNode.AppliesAll
    split
    · exact isTrue trivial
    · exact @instDecidableAnd _ _ _ (decidableAppliesAll Q k _)

instance [GrowthPolicy] (p : Proc) (l : PeerEvent) (p' : Proc) : Decidable (p.PeersFit l p') := by
  cases l <;> unfold Proc.PeersFit <;> infer_instance

section traces

open scoped GrowthPolicy

/-- A node that saves its configuration and is started again with the same
members, in another order and with itself among them. -/
theorem peers_agree_restarted :
    ∃ p, Run Proc.peerStep Proc.PeersFit (Proc.boot "a" ["b", "c"] "data" {}) p ∧
      p.peerList = ["c", "a", "b"] ∧
      ∀ a, a ∈ p.node.peers.keys ↔ a ∈ p.node.currentConfig.keys ∧ a ≠ p.node.selfAddr := by
  obtain ⟨p, hrun, hlist, hstable⟩ : ∃ p,
      Run Proc.peerStep Proc.PeersFit (Proc.boot "a" ["b", "c"] "data" {}) p ∧
        p.peerList = ["c", "a", "b"] ∧ p.node.configState = .stable :=
    exists_run_of_execWith [.event .electionTimeout, .restart none ["c", "a", "b"]]
      (by decide +kernel)
  exact ⟨p, hrun, hlist, peers_agree (RaftNode.listFits_fresh "a" ["b", "c"] "data") hrun hstable⟩

/-- **The views disagree.** The same node is started again without `c` in its
peer list: `c` stays a member of its configuration but is no peer. -/
theorem peers_disagree_after_restart :
    ∃ p, Run Proc.peerStep (fun _ _ _ => True) (Proc.boot "a" ["b", "c"] "data" {}) p ∧
      p.node.configState = .stable ∧ p.node.peers.keys = ["b"] ∧
      "c" ∈ p.node.currentConfig.keys ∧ p.node.selfAddr = "a" :=
  exists_run_of_execWith [.event .electionTimeout, .restart none ["b"]] (by decide +kernel)

end traces

end DistributedMQ.Raft
