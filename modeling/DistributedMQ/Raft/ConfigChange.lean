import DistributedMQ.Raft.Views

/-!
# Configuration changes and the log (`raft.go` lines 572–736)

`AddNode` and `RemoveNode` check the node under the lock, release it, and
`changeConfig` takes it again without looking anew. It switches the leader to the
joint configuration at once, while a follower switches when it applies the
entry. A request that truncates the log, or a step-down, touches neither
`configState` nor the maps.

- `joint_follows_log`: as long as no request takes a `JOINT_CONSENSUS` entry or
  an applied entry out of the log, a node in the joint state has an open
  `JOINT_CONSENSUS` entry in its log. `joint_without_entry` is a run in which a
  deposed leader loses the entry and stays joint.
- `changes_one_at_a_time`: as long as `changeConfig` finds the node as the checks
  found it, with no change under way in its log, the node creates entries only as
  leader and no second `JOINT_CONSENSUS` entry before the first is done.
  `changes_overlap` shows both parts fail otherwise.
-/

namespace DistributedMQ.Raft

open Machine

namespace RaftNode

/-- The entry at `i` begins a configuration change, and no `CONF_CHANGE` behind
it has been applied. -/
def OpenJoint (r : RaftNode) (i : ℕ) : Prop :=
  (∃ e ∈ r.log.elems[i]?, e.type = .jointConsensus) ∧
    ∀ j, j ≤ r.lastApplied → i < j → ∀ e ∈ r.log.elems[j]?, e.type ≠ .confChange

instance (r : RaftNode) (i : ℕ) : Decidable (r.OpenJoint i) :=
  inferInstanceAs (Decidable (_ ∧ _))

/-- Every configuration entry carries its configuration, as those the node
creates do. -/
def Configured (es : List LogEntry) : Prop := ∀ e ∈ es, e.type ≠ .data → e.config.isSome

instance (es : List LogEntry) : Decidable (Configured es) :=
  inferInstanceAs (Decidable (∀ e ∈ es, _))

/-- The request does not take a `JOINT_CONSENSUS` entry out of the log. -/
def KeepsJoint (r : RaftNode) (args : AppendEntriesArgs) : Prop :=
  ∀ i < r.log.elems.length, (∃ e ∈ r.log.elems[i]?, e.type = .jointConsensus) →
    GoSlice.NoConflict LogEntry.term r.log.elems (args.prevLogIndex + 1) args.entries (i + 1)

instance (r : RaftNode) (args : AppendEntriesArgs) : Decidable (r.KeepsJoint args) :=
  inferInstanceAs (Decidable (∀ i < _, _))

variable {r r' : RaftNode}

theorem KeepsJoint.observeTerm {args : AppendEntriesArgs} (h : r.KeepsJoint args) :
    (r.observeTerm args.term).KeepsJoint args := by
  rw [KeepsJoint, observeTerm_log]
  exact h

theorem Configured.append {es : List LogEntry} (h : Configured es) {e : LogEntry}
    (he : e.type ≠ .data → e.config.isSome) : Configured (es ++ [e]) := by
  intro e' he'
  rcases List.mem_append.mp he' with he' | he'
  · exact h e' he'
  · rw [List.mem_singleton.mp he']
    exact he

theorem Configured.splice {L es : List LogEntry} (hL : Configured L) (hes : Configured es)
    (k : ℕ) : Configured (TermLog.splice LogEntry.term L k es) := by
  intro e he
  rcases GoSlice.mem_splice es L k he with he | he
  · exact hL e he
  · exact hes e he

/-! ## Where the configuration entries are -/

/-- Configuration entries carry their configuration, and `lastApplied` is inside
the log. -/
structure Sound (r : RaftNode) : Prop where
  configured : Configured r.log.elems
  bound : r.lastApplied < r.log.len

theorem Sound.append [GrowthPolicy] (h : Sound r) {e : LogEntry}
    (he : e.type ≠ .data → e.config.isSome) :
    Configured (r.log.append e).elems ∧ r.lastApplied < (r.log.append e).len := by
  refine ⟨?_, lt_len_append h.bound e⟩
  rw [GoSlice.elems_append]
  exact h.configured.append he

theorem viewRule_sound [GrowthPolicy] :
    ViewRule Sound (fun _ _ => True) fun r args =>
      r.KeepsApplied args ∧ Configured args.entries where
  frame := by
    intro r r' hviews h
    constructor
    · rw [log_of_views hviews]
      exact h.configured
    · rw [log_of_views hviews, lastApplied_of_views hviews]
      exact h.bound
  own := by
    intro r e h htype hconf
    have happend := h.append (e := e) fun hne => hconf ?_
    · exact ⟨happend.1, happend.2⟩
    -- its own entries are data or `CONF_CHANGE`
    · cases he : e.type with
      | data => exact absurd he hne
      | confChange => rfl
      | jointConsensus => exact absurd he htype
  change := by
    intro r e new h _ hconf
    have happend := h.append (e := e) fun _ => hconf
    exact ⟨happend.1, happend.2⟩
  merge := by
    intro r args h hmerge
    refine ⟨?_, (hmerge.1.take_splice h.bound).1⟩
    show Configured (r.log.splice LogEntry.term _ args.entries).elems
    rw [GoSlice.elems_splice]
    exact h.configured.splice hmerge.2 _
  apply := by
    intro r e h hentry _
    constructor
    · rw [applyEntry_log]
      exact h.configured
    · rw [applyEntry_log, applyEntry_lastApplied]
      exact (List.getElem?_eq_some_iff.mp hentry).1

/-- What applying an entry with its configuration does to `configState`. -/
theorem applyEntry_configState {e : LogEntry} (hconf : e.type ≠ .data → e.config.isSome) :
    (r.applyEntry e).configState =
      match e.type with
      | .jointConsensus => .joint
      | .confChange => .stable
      | .data => r.configState := by
  cases htype : e.type with
  | data =>
    rw [applyEntry_data (by simp [htype])]
  | confChange =>
    obtain ⟨cfg, hcfg⟩ := Option.isSome_iff_exists.mp (hconf (by simp [htype]))
    rw [applyEntry_config (Or.inr htype), applyConfigChangeLocked, htype, hcfg]
    obtain ⟨ps, isr, ni, mi, h⟩ := foldl_shape dropPeer_shape r.peers.keys _
    exact congrArg configState h
  | jointConsensus =>
    obtain ⟨cfg, hcfg⟩ := Option.isSome_iff_exists.mp (hconf (by simp [htype]))
    rw [applyEntry_config (Or.inl htype), applyConfigChangeLocked, htype, hcfg]
    obtain ⟨ps, isr, ni, mi, h⟩ := foldl_shape addLearner_shape cfg.newPeers _
    exact congrArg configState h

/-- Whether a change is open depends on its entry and on what has been applied. -/
theorem openJoint_congr {i : ℕ} (hlast : r'.lastApplied = r.lastApplied)
    (hjoint : r'.log.elems[i]? = r.log.elems[i]?)
    (happlied : ∀ j, j ≤ r.lastApplied → r'.log.elems[j]? = r.log.elems[j]?) :
    r'.OpenJoint i ↔ r.OpenJoint i := by
  rw [OpenJoint, OpenJoint, hlast, hjoint]
  refine and_congr_right fun _ => forall_congr' fun j => ?_
  constructor
  · intro h hj
    rw [← happlied j hj]
    exact h hj
  · intro h hj
    rw [happlied j hj]
    exact h hj

theorem openJoint_withLog {i : ℕ} {log : GoSlice LogEntry}
    (hjoint : log.elems[i]? = r.log.elems[i]?)
    (happlied : ∀ j, j ≤ r.lastApplied → log.elems[j]? = r.log.elems[j]?) :
    { r with log := log : RaftNode }.OpenJoint i ↔ r.OpenJoint i :=
  @openJoint_congr r { r with log := log } i rfl hjoint happlied

/-- Passing an entry that is not a `CONF_CHANGE` closes nothing. -/
theorem openJoint_apply {e : LogEntry} (hentry : r.log.elems[r.lastApplied + 1]? = some e)
    (htype : e.type ≠ .confChange) (i : ℕ) :
    ({ r with lastApplied := r.lastApplied + 1 }.applyEntry e).OpenJoint i ↔ r.OpenJoint i := by
  rw [OpenJoint, OpenJoint, applyEntry_log, applyEntry_lastApplied]
  refine and_congr_right fun _ => ?_
  constructor
  · intro h j hj
    exact h j (Nat.le_succ_of_le hj)
  · intro h j hj hij e' he'
    rcases Nat.le_succ_iff.mp hj with hj | rfl
    · exact h j hj hij e' he'
    · obtain rfl : e = e' := Option.some.inj (hentry.symm.trans he')
      exact htype

theorem getElem?_append_of_lt [GrowthPolicy] {j : ℕ} (h : j < r.log.len) (e : LogEntry) :
    (r.log.append e).elems[j]? = r.log.elems[j]? := by
  rw [GoSlice.elems_append, List.getElem?_append_left h]

theorem getElem?_of_take_eq {L M : List LogEntry} {n j : ℕ} (h : M.take n = L.take n)
    (hj : j < n) : M[j]? = L[j]? := by
  rw [← List.getElem?_take_of_lt hj, h, List.getElem?_take_of_lt hj]

/-- A request that keeps what has been applied does not change it. -/
theorem KeepsApplied.getElem? [GrowthPolicy] {args : AppendEntriesArgs} (h : r.KeepsApplied args)
    (hlt : r.lastApplied < r.log.len) (j : ℕ) (hj : j ≤ r.lastApplied) :
    (r.log.splice LogEntry.term (args.prevLogIndex + 1) args.entries).elems[j]? =
      r.log.elems[j]? :=
  getElem?_of_take_eq (h.take_splice hlt).2 (Nat.lt_succ_of_le hj)

/-! ## The joint state follows the log -/

/-- A node in the joint state has an open change in its log. -/
structure FollowsLog (r : RaftNode) : Prop extends Sound r where
  joint : r.configState = .joint → ∃ i, r.OpenJoint i

theorem viewRule_followsLog [GrowthPolicy] :
    ViewRule FollowsLog (fun _ _ => True) fun r args =>
      (r.KeepsApplied args ∧ Configured args.entries) ∧ r.KeepsJoint args where
  frame := by
    intro r r' hviews h
    refine ⟨viewRule_sound.frame hviews h.toSound, fun hjoint => ?_⟩
    rw [configState_of_views hviews] at hjoint
    obtain ⟨i, hi⟩ := h.joint hjoint
    refine ⟨i, (openJoint_congr (lastApplied_of_views hviews) ?_ fun j _ => ?_).mpr hi⟩
    · rw [log_of_views hviews]
    · rw [log_of_views hviews]
  own := by
    intro r e h htype hconf
    refine ⟨viewRule_sound.own h.toSound htype hconf, fun hjoint => ?_⟩
    -- the new entry is behind everything that is applied
    obtain ⟨i, hi⟩ := h.joint hjoint
    obtain ⟨e', he', -⟩ := hi.1
    refine ⟨i, (openJoint_withLog ?_ fun j hj => ?_).mpr hi⟩
    · exact getElem?_append_of_lt (List.getElem?_eq_some_iff.mp he').1 e
    · exact getElem?_append_of_lt (lt_of_le_of_lt hj h.bound) e
  change := by
    intro r e new h htype hconf
    refine ⟨viewRule_sound.change h.toSound htype hconf, fun _ =>
      ⟨r.log.len, ⟨e, ?_, htype⟩, ?_⟩⟩
    · show (r.log.append e).elems[r.log.elems.length]? = some e
      rw [GoSlice.elems_append, List.getElem?_concat_length]
    · intro j hj hlt
      exact absurd (lt_of_le_of_lt hj h.bound) (Nat.lt_asymm hlt)
  merge := by
    intro r args h hmerge
    refine ⟨viewRule_sound.merge h.toSound hmerge.1, fun hjoint => ?_⟩
    obtain ⟨i, hi⟩ := h.joint hjoint
    obtain ⟨e, he, htype⟩ := hi.1
    have hlt : i < r.log.elems.length := (List.getElem?_eq_some_iff.mp he).1
    have hkeep := GoSlice.take_splice args.entries r.log.elems _ hlt
      (hmerge.2 i hlt ⟨e, he, htype⟩)
    refine ⟨i, (openJoint_withLog ?_ (hmerge.1.1.getElem? h.bound)).mpr hi⟩
    show (r.log.splice LogEntry.term _ args.entries).elems[i]? = _
    rw [GoSlice.elems_splice]
    exact getElem?_of_take_eq hkeep.2 (Nat.lt_succ_self i)
  apply := by
    intro r e h hentry _
    refine ⟨viewRule_sound.apply h.toSound hentry trivial, fun hjoint => ?_⟩
    rw [applyEntry_configState (h.configured e (List.mem_of_getElem? hentry))] at hjoint
    cases htype : e.type with
    | jointConsensus =>
      -- the entry just applied is the open one
      refine ⟨r.lastApplied + 1, ⟨e, ?_, htype⟩, ?_⟩
      · rw [applyEntry_log]
        exact hentry
      · intro j hj hlt
        rw [applyEntry_lastApplied] at hj
        exact absurd hlt (not_lt.mpr hj)
    | confChange =>
      rw [htype] at hjoint
      cases hjoint
    | data =>
      rw [htype] at hjoint
      obtain ⟨i, hi⟩ := h.joint hjoint
      exact ⟨i, (openJoint_apply hentry (by simp [htype]) i).mpr hi⟩

/-! ## One change at a time -/

/-- In the stable state every change that has been applied is closed. -/
structure Alternates (r : RaftNode) : Prop extends Sound r where
  closed : r.configState = .stable → ∀ i ≤ r.lastApplied, ¬r.OpenJoint i

theorem viewRule_alternates [GrowthPolicy] :
    ViewRule Alternates (fun _ _ => True) fun r args =>
      r.KeepsApplied args ∧ Configured args.entries where
  frame := by
    intro r r' hviews h
    refine ⟨viewRule_sound.frame hviews h.toSound, fun hstable i hi hopen => ?_⟩
    rw [configState_of_views hviews] at hstable
    rw [lastApplied_of_views hviews] at hi
    refine h.closed hstable i hi
      ((openJoint_congr (lastApplied_of_views hviews) ?_ fun j _ => ?_).mp hopen)
    · rw [log_of_views hviews]
    · rw [log_of_views hviews]
  own := by
    intro r e h htype hconf
    refine ⟨viewRule_sound.own h.toSound htype hconf, fun hstable i hi hopen => ?_⟩
    have hsame : ∀ j, j ≤ r.lastApplied → (r.log.append e).elems[j]? = r.log.elems[j]? :=
      fun j hj => getElem?_append_of_lt (lt_of_le_of_lt hj h.bound) e
    exact h.closed hstable i hi ((openJoint_withLog (hsame i hi) hsame).mp hopen)
  change := by
    intro r e new h htype hconf
    exact ⟨viewRule_sound.change h.toSound htype hconf, nofun⟩
  merge := by
    intro r args h hmerge
    refine ⟨viewRule_sound.merge h.toSound hmerge, fun hstable i hi hopen => ?_⟩
    have hsame := hmerge.1.getElem? h.bound
    exact h.closed hstable i hi ((openJoint_withLog (hsame i hi) hsame).mp hopen)
  apply := by
    intro r e h hentry _
    refine ⟨viewRule_sound.apply h.toSound hentry trivial, fun hstable i hi hopen => ?_⟩
    rw [applyEntry_configState (h.configured e (List.mem_of_getElem? hentry))] at hstable
    rw [applyEntry_lastApplied] at hi
    -- the entry at `i` begins a change, so it is not the one applied here
    have hlast : e.type ≠ .jointConsensus → i ≤ r.lastApplied := by
      intro hne
      rcases Nat.le_succ_iff.mp hi with hi | rfl
      · exact hi
      · obtain ⟨⟨e', he', htype⟩, -⟩ := hopen
        rw [applyEntry_log] at he'
        obtain rfl : e = e' := Option.some.inj (hentry.symm.trans he')
        exact absurd htype hne
    cases htype : e.type with
    | jointConsensus =>
      rw [htype] at hstable
      cases hstable
    | confChange =>
      have hle := hlast (by simp [htype])
      refine hopen.2 (r.lastApplied + 1) ?_ (Nat.lt_succ_of_le hle) e ?_ htype
      · rw [applyEntry_lastApplied]
      · rw [applyEntry_log]
        exact hentry
    | data =>
      rw [htype] at hstable
      exact h.closed hstable i (hlast (by simp [htype]))
        ((openJoint_apply hentry (by simp [htype]) i).mp hopen)

/-- A node without files has applied nothing and is stable. -/
theorem fresh_newRaftNode (self : String) (peers : List String) (dir : String) [GrowthPolicy] :
    (newRaftNode self peers dir {}).log.elems = [sentinel] ∧
      (newRaftNode self peers dir {}).lastApplied = 0 ∧
      (newRaftNode self peers dir {}).configState = .stable := by
  obtain ⟨ps, cc, isr, h⟩ := addPeers_shape self peers (blankNode self dir {})
  rw [newRaftNode_emptyDisk, h]
  exact ⟨rfl, rfl, rfl⟩

theorem sound_newRaftNode (self : String) (peers : List String) (dir : String) [GrowthPolicy] :
    Sound (newRaftNode self peers dir {}) := by
  obtain ⟨hlog, hlast, -⟩ := fresh_newRaftNode self peers dir
  constructor
  · rw [hlog]
    intro e he
    rw [List.mem_singleton.mp he]
    exact fun hne => absurd rfl hne
  · rw [GoSlice.len, hlog, hlast]
    exact Nat.one_pos

end RaftNode

/-! ## Runs -/

namespace Proc

/-- No request takes a configuration change or an applied entry out of the log;
no restart and no snapshot. -/
def KeepsChanges (p : Proc) (ev : Event) (p' : Proc) : Prop :=
  p.Unbroken ev p' ∧
    match ev with
    | .appendEntries _ _ args =>
      p.node.Accepts args →
        (p.node.KeepsApplied args ∧ RaftNode.Configured args.entries) ∧ p.node.KeepsJoint args
    | .installSnapshot _ _ args => ¬p.node.Installs args
    | _ => True

instance (p : Proc) (ev : Event) (p' : Proc) : Decidable (p.KeepsChanges ev p') := by
  apply Event.casesOn (motive := fun ev => Decidable (p.KeepsChanges ev p')) ev <;> intros <;>
    unfold KeepsChanges <;> infer_instance

/-- `changeConfig` finds the node leading, stable and without an unapplied
`JOINT_CONSENSUS` entry; no request overwrites an applied entry, no restart and no
snapshot. -/
def OneAtATime (p : Proc) (ev : Event) (p' : Proc) : Prop :=
  p.Unbroken ev p' ∧
    match ev with
    | .appendEntries _ _ args =>
      p.node.Accepts args → p.node.KeepsApplied args ∧ RaftNode.Configured args.entries
    | .installSnapshot _ _ args => ¬p.node.Installs args
    | .changeConfig _ _ =>
      p.node.state = .leader ∧ p.node.configState = .stable ∧
        ∀ i < p.node.log.elems.length,
          (∃ e ∈ p.node.log.elems[i]?, e.type = .jointConsensus) → i ≤ p.node.lastApplied
    | _ => True

instance (p : Proc) (ev : Event) (p' : Proc) : Decidable (p.OneAtATime ev p') := by
  apply Event.casesOn (motive := fun ev => Decidable (p.OneAtATime ev p')) ev <;> intros <;>
    unfold OneAtATime <;> infer_instance

end Proc

open RaftNode

section runs

variable [GrowthPolicy] {p p' : Proc} {ev : Event} {self : String} {peers : List String}
  {dir : String}

/-- A live process follows its log. -/
theorem followsLog_of_run (hrun : Run Proc.next Proc.KeepsChanges (Proc.boot self peers dir {}) p) :
    (p.alive = true → p.node.FollowsLog) ∧
      (p.node.configState = .joint → ∃ i, p.node.OpenJoint i) := by
  have hboot : (Proc.boot self peers dir {}).node.FollowsLog := by
    refine ⟨sound_newRaftNode self peers dir, fun hjoint => ?_⟩
    rw [Proc.boot, (fresh_newRaftNode self peers dir).2.2] at hjoint
    cases hjoint
  refine hrun.invariant (P := fun p => (p.alive = true → p.node.FollowsLog) ∧
    (p.node.configState = .joint → ∃ i, p.node.OpenJoint i)) ⟨fun _ => hboot, hboot.joint⟩ ?_
  rintro p ev p' ⟨hinv, -⟩ ⟨hev, hguard⟩ hst
  rcases viewRule_followsLog.next (hinv (Proc.alive_of_next hst hev)) hst hev
    (by rintro c i args rfl; exact hguard)
    (by
      rintro c i args rfl hacc
      obtain ⟨⟨happlied, hes⟩, hjoint⟩ := hguard hacc
      exact ⟨⟨happlied.observeTerm, hes⟩, hjoint.observeTerm⟩)
    (fun r _ => appliesAll_true _ r) with h | ⟨hdead, r, hr, hend, hnode⟩
  · exact ⟨fun _ => h, h.joint⟩
  · refine ⟨fun halive => absurd (hdead.symm.trans halive) Bool.false_ne_true, ?_⟩
    -- there is no entry at the index of the panic, so none has been passed
    rw [hnode]
    intro hjoint
    obtain ⟨i, hi, hnone⟩ := hr.joint hjoint
    refine ⟨i, hi, fun j hj hij e he => ?_⟩
    rcases Nat.le_succ_iff.mp hj with hj | rfl
    · exact hnone j hj hij e he
    · rw [Option.mem_def, hend] at he
      cases he

/-- **The configuration follows the log.** In every state of a run in which no
request takes a `JOINT_CONSENSUS` entry or an applied entry out of the log, a
node in the joint state has a `JOINT_CONSENSUS` entry that is not followed by an
applied `CONF_CHANGE`. -/
theorem joint_follows_log
    (hrun : Run Proc.next Proc.KeepsChanges (Proc.boot self peers dir {}) p)
    (hjoint : p.node.configState = .joint) : ∃ i, p.node.OpenJoint i :=
  (followsLog_of_run hrun).2 hjoint

theorem alternates_of_run (hrun : Run Proc.next Proc.OneAtATime (Proc.boot self peers dir {}) p) :
    p.alive = true → p.node.Alternates := by
  have hboot : (Proc.boot self peers dir {}).node.Alternates := by
    obtain ⟨hlog, hlast, -⟩ := fresh_newRaftNode self peers dir
    refine ⟨sound_newRaftNode self peers dir, fun _ i _ hopen => ?_⟩
    obtain ⟨⟨e, he, htype⟩, -⟩ := hopen
    rw [Proc.boot, hlog] at he
    rw [List.mem_singleton.mp (List.mem_of_getElem? he)] at htype
    cases htype
  refine hrun.invariant (P := fun p => p.alive = true → p.node.Alternates) (fun _ => hboot) ?_
  rintro p ev p' hinv ⟨hev, hguard⟩ hst halive
  rcases viewRule_alternates.next (hinv (Proc.alive_of_next hst hev)) hst hev
    (by rintro c i args rfl; exact hguard)
    (by
      rintro c i args rfl hacc
      exact ⟨(hguard hacc).1.observeTerm, (hguard hacc).2⟩)
    (fun r _ => appliesAll_true _ r) with h | ⟨hdead, -⟩
  · exact h
  · exact absurd (hdead.symm.trans halive) Bool.false_ne_true

end runs

/-! ## The entries a node creates -/

namespace RaftNode

/-- The entry `changeConfig` creates. -/
def jointEntry (r : RaftNode) (addr : String) (add : Bool) : LogEntry where
  term := r.currentTerm
  index := r.log.len
  type := .jointConsensus
  config :=
    let copy := configOf r.currentConfig.keys
    let new := if add then copy.insert addr true else copy.erase addr
    some { oldPeers := r.currentConfig.keys, newPeers := new.keys }

/-- The entry `appendStableConfig` creates. -/
def stableEntry (r : RaftNode) : LogEntry where
  term := r.currentTerm
  index := r.log.len
  type := .confChange
  config := some { oldPeers := [], newPeers := (r.newConfig.map AList.keys).getD [] }

end RaftNode

/-- The entries the node itself creates in an event. -/
def Proc.created (p : Proc) : Event → List LogEntry
  | .submitCommand topic partition data =>
    if p.node.state = .leader then [p.node.commandEntry topic partition data] else []
  | .changeConfig addr add => [p.node.jointEntry addr add]
  | .appendStableConfig =>
    if p.node.state = .leader ∧ p.node.configState = .joint then [p.node.stableEntry] else []
  | _ => []

section created

variable [GrowthPolicy] {p p' : Proc} {ev : Event} {self : String} {peers : List String}
  {dir : String}

/-- The event can change the log. -/
def Event.writes : Event → Bool
  | .appendEntries _ _ _ | .installSnapshot _ _ _ | .submitCommand _ _ _ | .changeConfig _ _
  | .appendStableConfig | .restart | .dieServing _ => true
  | _ => false

theorem NodeOp.log_of_not_writes {r : RaftNode} (hop : NodeOp p ev r) (h : ev.writes = false) :
    r.log = p.node.log := by
  cases hop with
  | same _ => rfl
  | startElection _ _ id => exact p.node.startElection_log id
  | requestVote caller id args => exact p.node.requestVote_log args
  | voteReply id peer reply e _ => exact p.node.handleVoteReply_log e peer reply
  | sendAppendEntries peer _ => exact p.node.normalizeNext_log peer
  | appendEntries caller id args => cases h
  | appendReply id reply c _ _ => exact p.node.handleAppendReply_log c reply
  | installSnapshot caller id args => cases h
  | snapshotReply id reply c _ => exact p.node.handleSnapshotReply_log c reply
  | submitCommand topic partition data => cases h
  | applyCommittedEntries => exact applyLoop_log _ p.node
  | checkISR => exact p.node.checkISR_log
  | changeConfig addr add => cases h
  | appendStableConfig => cases h
  | restart _ hre _ _ => cases ev <;> cases hre <;> cases h

/-- What a log gains, other than from a request, a snapshot or the disk, the node
has created. -/
theorem log_of_created (hst : p.next ev = some p') (hev : ¬ev.Restarts)
    (hown : ∀ c i args, ev ≠ .appendEntries c i args)
    (hsnap : ∀ c i args, ev ≠ .installSnapshot c i args) :
    p'.node.log.elems = p.node.log.elems ++ p.created ev := by
  cases ev with
  | submitCommand topic partition data =>
    rw [Proc.next_submitCommand hst, Proc.created]
    split
    · rw [(submitCommand_leader ‹_› topic partition data).1, GoSlice.elems_append]
    · rw [submitCommand, if_neg ‹_›, List.append_nil]
  | changeConfig addr add =>
    rw [Proc.next_changeConfig hst, changeConfig, appendOwn, saveState_log, GoSlice.elems_append]
    rfl
  | appendStableConfig =>
    rw [Proc.next_appendStableConfig hst, Proc.created, appendStableConfig]
    split
    · rw [if_neg (by tauto), List.append_nil]
    · rw [if_pos (by tauto), appendOwn, saveState_log, GoSlice.elems_append]
      rfl
  | appendEntries c i args => exact absurd rfl (hown c i args)
  | installSnapshot c i args => exact absurd rfl (hsnap c i args)
  | restart => exact absurd trivial hev
  | dieServing request => exact absurd trivial hev
  | _ =>
    rw [(Proc.next_nodeOp hst).log_of_not_writes rfl]
    exact (List.append_nil _).symm

/-- **Leader only, one at a time.** In a run in which `changeConfig` finds the
node leading, stable and without an unapplied `JOINT_CONSENSUS` entry, and no
request overwrites an applied entry, every entry the node creates carries the
term in which it leads, and it creates a `JOINT_CONSENSUS` entry only when every
earlier one is followed by an applied `CONF_CHANGE`. -/
theorem changes_one_at_a_time
    (hrun : Run Proc.next Proc.OneAtATime (Proc.boot self peers dir {}) p)
    (hguard : p.OneAtATime ev p') (hst : p.next ev = some p') {e : LogEntry}
    (he : e ∈ p.created ev) :
    (p.node.state = .leader ∧ e.term = p.node.currentTerm) ∧
      (e.type = .jointConsensus → ∀ i, ¬p.node.OpenJoint i) := by
  have hinv := alternates_of_run hrun (Proc.alive_of_next hst hguard.1)
  obtain ⟨-, hguard⟩ := hguard
  cases ev with
  | submitCommand topic partition data =>
    simp only [Proc.created] at he
    split at he
    case isFalse => cases he
    case isTrue hlead =>
      rw [List.mem_singleton.mp he]
      exact ⟨⟨hlead, rfl⟩, nofun⟩
  | changeConfig addr add =>
    obtain ⟨hlead, hstable, hunapplied⟩ := hguard
    rw [List.mem_singleton.mp he]
    refine ⟨⟨hlead, rfl⟩, fun _ i hopen => ?_⟩
    obtain ⟨e', he', htype⟩ := hopen.1
    have hi := hunapplied i (List.getElem?_eq_some_iff.mp he').1 ⟨e', he', htype⟩
    exact hinv.closed hstable i hi hopen
  | appendStableConfig =>
    simp only [Proc.created] at he
    split at he
    case isFalse => cases he
    case isTrue hlead =>
      rw [List.mem_singleton.mp he]
      exact ⟨⟨hlead.1, rfl⟩, nofun⟩
  | _ => cases he

end created

section traces

open scoped GrowthPolicy

/-- A lone leader begins to add `b`. -/
theorem joint_follows_log_adding :
    ∃ p, Run Proc.next Proc.KeepsChanges (Proc.boot "a" [] "data" {}) p ∧
      p.node.configState = .joint ∧ ∃ i, p.node.OpenJoint i := by
  obtain ⟨p, hrun, hjoint⟩ : ∃ p,
      Run Proc.next Proc.KeepsChanges (Proc.boot "a" [] "data" {}) p ∧
        p.node.configState = .joint :=
    exists_run_of_execWith [.electionTimeout, .addNode "b", .changeConfig "b" true]
      (by decide +kernel)
  exact ⟨p, hrun, hjoint, joint_follows_log hrun hjoint⟩

/-- **The joint state without its entry.** A leader begins to add `d` and is
deposed; the entry of the next leader replaces its `JOINT_CONSENSUS` entry, and
it stays in the joint state. -/
theorem joint_without_entry :
    ∃ p, Run Proc.next Proc.Unbroken (Proc.boot "a" ["b", "c"] "data" {}) p ∧
      p.node.configState = .joint ∧ p.node.log.elems = [sentinel, { term := 2, index := 1 }] :=
  exists_run_of_execWith
    [.electionTimeout, .voteReply 0 "b" { term := 1, voteGranted := true }, .addNode "d",
      .changeConfig "d" true,
      .appendEntries "b" 0
        { term := 2, leaderId := "b", prevLogIndex := 0, prevLogTerm := 0
          entries := [{ term := 2, index := 1 }], leaderCommit := 0 }]
    (by decide +kernel)

/-- A lone leader that has checked the addition of `b` runs it. -/
theorem changes_one_at_a_time_adding :
    ∃ p p', Run Proc.next Proc.OneAtATime (Proc.boot "a" [] "data" {}) p ∧
      p.next (.changeConfig "b" true) = some p' ∧
      (p.node.state = .leader ∧ (p.node.jointEntry "b" true).term = p.node.currentTerm) ∧
        ∀ i, ¬p.node.OpenJoint i := by
  obtain ⟨p, p', -, hrun, hguard, hst, -⟩ : ∃ p p' q,
      Run Proc.next Proc.OneAtATime (Proc.boot "a" [] "data" {}) p ∧
        p.OneAtATime (.changeConfig "b" true) p' ∧ p.next (.changeConfig "b" true) = some p' ∧
        Run Proc.next Proc.OneAtATime p' q ∧ p.node.state = .leader :=
    exists_step_of_execWith [Event.electionTimeout, .addNode "b"] (.changeConfig "b" true) []
      (by decide +kernel)
  obtain ⟨hlead, hopen⟩ := changes_one_at_a_time hrun hguard hst List.mem_cons_self
  exact ⟨p, p', hrun, hst, hlead, hopen rfl⟩

/-- **Changes overlap.** Two additions pass the checks of a lone leader before
either runs: the second `JOINT_CONSENSUS` entry is created while the first is
open. And a leader that is deposed between check and change creates its entry as
a follower. -/
theorem changes_overlap :
    (∃ p, Run Proc.next Proc.Unbroken (Proc.boot "a" [] "data" {}) p ∧
      (p.next (.changeConfig "c" true)).isSome ∧ p.node.OpenJoint 1 ∧
        ∃ e ∈ p.created (.changeConfig "c" true), e.type = .jointConsensus) ∧
    ∃ p, Run Proc.next Proc.Unbroken (Proc.boot "a" ["b", "c"] "data" {}) p ∧
      (p.next (.changeConfig "d" true)).isSome ∧ p.node.state = .follower ∧
        p.node.currentTerm = 2 ∧ ∃ e ∈ p.created (.changeConfig "d" true), e.term = 2 :=
  ⟨exists_run_of_execWith
      [.electionTimeout, .addNode "b", .addNode "c", .changeConfig "b" true]
      (by decide +kernel),
    exists_run_of_execWith
      [.electionTimeout, .voteReply 0 "b" { term := 1, voteGranted := true }, .addNode "d",
        .requestVote "b" 0 { term := 2, candidateId := "b", lastLogIndex := 0, lastLogTerm := 0 }]
      (by decide +kernel)⟩

end traces

end DistributedMQ.Raft
