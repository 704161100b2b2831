import DistributedMQ.Lib.Archive
import DistributedMQ.Raft.LogSteps
import Mathlib.Data.Finset.Max

/-!
# Log matching

The logs of a cluster without snapshots, restarts and membership changes are
accounted for by an `Archive`: whatever a member holds or a request carries is a
known log, and every entry beyond the terms the cluster started in comes from
the log of its term's leader.

- `LogInv members base s book A`: the archive `A` accounts for the cluster.
- `LogInv.update`: what a step of one member has to provide; `LogInv.step_grows`
  provides it for every `LogEffect`. The archive loses nothing in a step, a
  leader's log in it only grows, and a log that is new in it is an older one with
  an entry behind.
- `logMatching`: in every state reached, any two logs match.

A request is a window into the leader's log that is read when it is marshalled,
after the lock has been released. If the sender has lost the leadership by then
and truncates its log for another leader, the window shows the new leader's
entries under the old leader's term (`logs_mismatch_after_overwrite`). The steps
of `logMatching` therefore keep such windows as they are
(`Cluster.WindowsKept`), and do not wrap the term.
-/

namespace DistributedMQ.Raft

open RaftNode Machine TermLog

/-! ## Guards -/

/-- Neither a snapshot is installed nor a process restarted. -/
def Event.plain : Event → Bool
  | .installSnapshot _ _ _ => false
  | .restart => false
  | .dieServing _ => false
  | _ => true

theorem Event.not_restarts_of_plain {ev : Event} (h : ev.plain = true) : ¬ ev.Restarts := by
  cases ev <;> simp_all [Event.plain, Event.Restarts]

/-- The request an `AppendEntries` event serves. -/
def Event.appendArgs : Event → Option AppendEntriesArgs
  | .appendEntries _ _ args => some args
  | _ => none

/-- Merging the request does not overwrite an entry that a request of this
process, built and not yet marshalled, still has to read. -/
def Proc.KeepsWindows (p : Proc) (args : AppendEntriesArgs) : Prop :=
  ∀ c ∈ p.appends, c.sent = false → c.entries.base = p.node.log.base →
    GoSlice.NoConflict LogEntry.term p.node.log.elems (args.prevLogIndex + 1) args.entries
      (c.entries.lo + c.entries.len)

instance (p : Proc) (args : AppendEntriesArgs) : Decidable (p.KeepsWindows args) :=
  inferInstanceAs (Decidable (∀ c ∈ p.appends, c.sent = false → c.entries.base = p.node.log.base →
    GoSlice.NoConflict LogEntry.term p.node.log.elems (args.prevLogIndex + 1) args.entries
      (c.entries.lo + c.entries.len)))

namespace Cluster

/-- An accepted request overwrites no entry that is still to be marshalled. -/
def WindowsKept (s : Cluster) (l : String × Event) : Prop :=
  ∀ args ∈ l.2.appendArgs, (s.node l.1).Accepts args → (s.procs l.1).KeepsWindows args

/-- The steps log matching is about: static membership, no snapshot installed,
no restart. -/
def Replicating (s : Cluster) (l : String × Event) (s' : Cluster) : Prop :=
  s.Static l s' ∧ l.2.plain = true

/-- Those of them that neither wrap the term nor overwrite a pending request. -/
def Careful (s : Cluster) (l : String × Event) (s' : Cluster) : Prop :=
  s.Replicating l s' ∧ s.NoWrap l ∧ s.WindowsKept l

instance (s : Cluster) (l : String × Event) (s' : Cluster) : Decidable (s.Replicating l s') :=
  inferInstanceAs (Decidable (s.Static l s' ∧ l.2.plain = true))

instance (s : Cluster) (l : String × Event) (s' : Cluster) : Decidable (s.Careful l s') :=
  inferInstanceAs (Decidable (s.Replicating l s' ∧ s.NoWrap l ∧
    ∀ args ∈ l.2.appendArgs, (s.node l.1).Accepts args → (s.procs l.1).KeepsWindows args))

end Cluster

/-! ## The invariant -/

/-- The request a call stands for carries the tail of a log of its leader, as
long as it has not been marshalled. -/
structure CallOk (A : Archive LogEntry String) (i : String) (r : RaftNode) (c : AppendCall) :
    Prop where
  peer_ne : c.peer ≠ i
  inside : c.sent = false → r.log.Inside c.entries
  length : c.sent = false → (r.log.read c.entries).length = c.entries.len
  carried : c.sent = false → A.Carried LogEntry.term c.term i c.prevLogIndex c.prevLogTerm
    (r.log.read c.entries)

/-- What the archive has to do with one member. -/
structure LogMember (base : ℕ) (A : Archive LogEntry String) (i : String) (p : Proc) : Prop where
  known : A.known p.node.log.elems
  floor : base ≤ p.node.currentTerm
  above : p.node.state ≠ .follower → base < p.node.currentTerm
  lead : p.node.state = .leader → A.led p.node.currentTerm = some (i, p.node.log.elems)
  call : ∀ c ∈ p.appends, CallOk A i p.node c

/-- The archive accounts for all logs of the cluster. -/
structure LogInv (members : List String) (base : ℕ) (s : Cluster) (book : VoteBook String)
    (A : Archive LogEntry String) : Prop where
  vote : VoteInv members s book
  ok : A.Ok LogEntry.term sentinel base
  member : ∀ i ∈ members, LogMember base A i (s.procs i)
  led : ∀ T c L, A.led T = some (c, L) → c ∈ members ∧ book.Won members T c ∧
    T ≤ (s.node c).currentTerm ∧ ((s.node c).currentTerm = T → (s.node c).state = .leader)
  request : ∀ c id peer args, Message.appendRequest c id peer args ∈ s.net →
    peer ≠ c ∧ A.Carried LogEntry.term args.term c args.prevLogIndex args.prevLogTerm args.entries

theorem CallOk.mono {A A' : Archive LogEntry String} (hle : A.Le A') {i : String} {r r' : RaftNode}
    {c : AppendCall} (h : CallOk A i r c)
    (hlog : c.sent = false → r'.log.Inside c.entries ∧ r'.log.read c.entries = r.log.read c.entries) :
    CallOk A' i r' c where
  peer_ne := h.peer_ne
  inside hs := (hlog hs).1
  length hs := by
    rw [(hlog hs).2]
    exact h.length hs
  carried hs := by
    rw [(hlog hs).2]
    exact (h.carried hs).mono hle

/-- A member other than the one whose leadership is new does not mind. -/
theorem LogMember.mono {base : ℕ} {A A' : Archive LogEntry String} (hle : A.Le A') {i : String}
    {p : Proc} (h : LogMember base A i p)
    (hled : ∀ T L, A'.led T = some (i, L) → A.led T = some (i, L)) : LogMember base A' i p where
  known := hle.known _ h.known
  floor := h.floor
  above := h.above
  lead hl := by
    obtain ⟨L, hL, -⟩ := hle.led _ _ _ (h.lead hl)
    have heq := (h.lead hl).symm.trans (hled _ L hL)
    obtain ⟨-, rfl⟩ := Prod.mk.inj (Option.some.inj heq)
    exact hL
  call c hc := (h.call c hc).mono hle fun hs => ⟨(h.call c hc).inside hs, rfl⟩

/-- What a step that leaves the log of member `i` alone enters into the archive. -/
inductive ArchiveStep (i : String) (r : RaftNode) (A : Archive LogEntry String) :
    Archive LogEntry String → Prop where
  | same : ArchiveStep i r A A
  /-- The member begins to lead in a term nobody has led in. -/
  | elect (hlead : r.state = .leader) (hnone : A.led r.currentTerm = none) :
      ArchiveStep i r A (A.elect r.currentTerm i r.log.elems)

section step

variable {members : List String} {base : ℕ} {s : Cluster} {book book' : VoteBook String}
  {A A' : Archive LogEntry String} {i : String}

/-- A step of member `i` keeps the invariant if only its own leadership is new
in the archive and what it puts on the wire is carried. -/
theorem LogInv.update (h : LogInv members base s book A) {p : Proc} {out : List Message}
    (hvote : VoteInv members (s.put i p out) book')
    (hbook : book.Extends book') (hi : i ∈ members) (hle : A.Le A')
    (hok : A'.Ok LogEntry.term sentinel base) (hp : LogMember base A' i p)
    (hmove : TermMove (s.node i) p.node)
    (hnew : ∀ T c L, A'.led T = some (c, L) →
      A.led T = some (c, L) ∨ (c = i ∧ T = p.node.currentTerm ∧ p.node.state = .leader))
    (hreq : ∀ c id peer args, Message.appendRequest c id peer args ∈ out →
      peer ≠ c ∧
        A'.Carried LogEntry.term args.term c args.prevLogIndex args.prevLogTerm args.entries) :
    LogInv members base (s.put i p out) book' A' where
  vote := hvote
  ok := hok
  member := by
    refine s.forall_put (P := fun j q => j ∈ members → LogMember base A' j q) i p out
      (fun _ => hp) fun j hji hj => (h.member j hj).mono hle fun T L hL => ?_
    rcases hnew T j L hL with hold | ⟨hji', -⟩
    · exact hold
    · exact absurd hji' hji
  led T c L hL := by
    rcases hnew T c L hL with hold | ⟨rfl, rfl, hstate⟩
    · obtain ⟨hc, hwon, hT, hkeep⟩ := h.led T c L hold
      refine ⟨hc, hbook.won hwon, ?_⟩
      by_cases hci : c = i
      · subst hci
        rw [Cluster.put_node_self]
        refine ⟨hT.trans hmove.term_le, fun heq => hmove.lead_stays ?_ (hkeep ?_)⟩
        · exact le_antisymm (heq ▸ hT) hmove.term_le
        · exact le_antisymm (heq ▸ hmove.term_le) hT
      · rw [Cluster.put_node_ne _ _ _ _ hci]
        exact ⟨hT, hkeep⟩
    · have hwon := (hvote.member c hi).leader
      rw [Cluster.put_procs_self] at hwon
      rw [Cluster.put_node_self]
      exact ⟨hi, hwon hstate, le_rfl, fun _ => hstate⟩
  request c id peer args hm := by
    rcases List.mem_append.mp hm with hm | hm
    · exact ⟨(h.request c id peer args hm).1, (h.request c id peer args hm).2.mono hle⟩
    · exact hreq c id peer args hm

/-- Terms stay above the base, and candidates and leaders strictly so. -/
theorem LogMember.floor_move {p : Proc} {r : RaftNode} (h : LogMember base A i p)
    (hmove : TermMove p.node r) :
    base ≤ r.currentTerm ∧ (r.state ≠ .follower → base < r.currentTerm) := by
  refine ⟨h.floor.trans hmove.term_le, fun hstate => ?_⟩
  cases hmove with
  | stay hs ht => exact ht ▸ h.above (hs ▸ hstate)
  | down hs _ => exact absurd hs hstate
  | campaign _ ht => exact lt_of_le_of_lt h.floor (ht ▸ Nat.lt_succ_self _)
  | elected hwas _ ht => exact ht ▸ h.above (by rw [hwas]; decide)

/-- Calls that are kept with the log they look into stay in order. -/
theorem LogMember.calls_of_log_eq (hle : A.Le A') {p p' : Proc} (h : LogMember base A i p)
    (hlog : p'.node.log = p.node.log) (happ : p'.appends ⊆ p.appends) :
    ∀ c ∈ p'.appends, CallOk A' i p'.node c := by
  intro c hc
  refine (h.call c (happ hc)).mono hle fun hs => ?_
  rw [hlog]
  exact ⟨(h.call c (happ hc)).inside hs, rfl⟩

/-- The log stays and nobody begins to lead. -/
theorem LogInv.quiet_stay (h : LogInv members base s book A) {p : Proc} {out : List Message}
    (hvote : VoteInv members (s.put i p out) book')
    (hbook : book.Extends book') (hi : i ∈ members) (hlog : p.node.log = (s.node i).log)
    (happ : p.appends ⊆ (s.procs i).appends) (hout : ∀ m ∈ out, m.Mute)
    (hmove : TermMove (s.node i) p.node)
    (hlead : p.node.state = .leader →
      (s.node i).state = .leader ∧ p.node.currentTerm = (s.node i).currentTerm) :
    LogInv members base (s.put i p out) book' A := by
  have hmem := h.member i hi
  obtain ⟨hfloor, habove⟩ := hmem.floor_move hmove
  refine h.update hvote hbook hi (.refl A) h.ok ⟨?_, hfloor, habove, fun hl => ?_, ?_⟩ hmove
    (fun _ _ _ hL => Or.inl hL) fun c id peer args hm => (hout _ hm).elim
  · rw [hlog]
    exact hmem.known
  · obtain ⟨hwas, hterm⟩ := hlead hl
    rw [hterm, hlog]
    exact hmem.lead hwas
  · exact hmem.calls_of_log_eq (.refl A) hlog happ

/-- Nobody has led in the term a member begins to lead in: it would have to be
the member itself. -/
theorem LogInv.led_none (h : LogInv members base s book A) {p : Proc} {out : List Message}
    (hvote : VoteInv members (s.put i p out) book') (hbook : book.Extends book')
    (hi : i ∈ members) (hmove : TermMove (s.node i) p.node) (hlead : p.node.state = .leader)
    (hfresh : p.node.currentTerm = (s.node i).currentTerm → (s.node i).state ≠ .leader) :
    A.led p.node.currentTerm = none := by
  by_contra hsome
  obtain ⟨⟨c, L⟩, hL⟩ := Option.ne_none_iff_exists'.mp hsome
  obtain ⟨-, hwon, hT, hkeep⟩ := h.led _ c L hL
  have hwon' : book'.Won members p.node.currentTerm i := by
    have := (hvote.member i hi).leader
    rw [Cluster.put_procs_self] at this
    exact this hlead
  obtain rfl := VoteBook.winner_unique (hbook.won hwon) hwon'
  have heq := le_antisymm hT hmove.term_le
  exact hfresh heq (hkeep heq.symm)

/-- The log stays and the member begins to lead in a term nobody has led in. -/
theorem LogInv.quiet_elect (h : LogInv members base s book A) {p : Proc} {out : List Message}
    (hvote : VoteInv members (s.put i p out) book')
    (hbook : book.Extends book') (hi : i ∈ members) (hlog : p.node.log = (s.node i).log)
    (happ : p.appends ⊆ (s.procs i).appends) (hout : ∀ m ∈ out, m.Mute)
    (hmove : TermMove (s.node i) p.node) (hlead : p.node.state = .leader)
    (hnone : A.led p.node.currentTerm = none) :
    LogInv members base (s.put i p out) book'
      (A.elect p.node.currentTerm i p.node.log.elems) := by
  have hmem := h.member i hi
  obtain ⟨hfloor, habove⟩ := hmem.floor_move hmove
  have hle := Archive.le_elect hnone i p.node.log.elems
  have hknown : A.known p.node.log.elems := by
    rw [hlog]
    exact hmem.known
  refine h.update hvote hbook hi hle (h.ok.elect hnone hknown)
    ⟨hknown, hfloor, habove, fun _ => Function.update_self _ _ _, ?_⟩ hmove
    (fun T c L hL => ?_) fun c id peer args hm => (hout _ hm).elim
  · exact hmem.calls_of_log_eq hle hlog happ
  · rcases Archive.of_elect_led hL with ⟨hT, hc, -⟩ | hold
    · exact Or.inr ⟨hc, hT, hlead⟩
    · exact Or.inl hold

/-- The log stays: the step is about terms and leadership only. -/
theorem LogInv.quiet (h : LogInv members base s book A) {p : Proc} {out : List Message}
    (hvote : VoteInv members (s.put i p out) book')
    (hbook : book.Extends book') (hi : i ∈ members) (hlog : p.node.log = (s.node i).log)
    (happ : p.appends ⊆ (s.procs i).appends) (hout : ∀ m ∈ out, m.Mute)
    (hmove : TermMove (s.node i) p.node) :
    ∃ A', ArchiveStep i p.node A A' ∧ LogInv members base (s.put i p out) book' A' := by
  -- a leader in a term it did not lead in before
  have helect : p.node.state = .leader →
      (p.node.currentTerm = (s.node i).currentTerm → (s.node i).state ≠ .leader) →
      ∃ A', ArchiveStep i p.node A A' ∧ LogInv members base (s.put i p out) book' A' := by
    intro hlead hfresh
    have hnone := h.led_none hvote hbook hi hmove hlead hfresh
    exact ⟨_, .elect hlead hnone,
      h.quiet_elect hvote hbook hi hlog happ hout hmove hlead hnone⟩
  have hstay : (p.node.state = .leader →
      (s.node i).state = .leader ∧ p.node.currentTerm = (s.node i).currentTerm) →
      ∃ A', ArchiveStep i p.node A A' ∧ LogInv members base (s.put i p out) book' A' :=
    fun hlead => ⟨A, .same, h.quiet_stay hvote hbook hi hlog happ hout hmove hlead⟩
  cases hmove with
  | stay hstate hterm => exact hstay fun hl => ⟨hstate ▸ hl, hterm⟩
  | down hstate _ => exact hstay fun hl => absurd (hstate.symm.trans hl) (by decide)
  | campaign hwas hterm =>
    by_cases hl : p.node.state = .leader
    · exact helect hl fun _ => hwas
    · exact hstay fun hl' => absurd hl' hl
  | elected hwas hstate _ =>
    refine helect hstate fun _ hl => ?_
    rw [hwas] at hl
    cases hl

variable [GrowthPolicy]

/-- A leader appends an entry of its term. -/
theorem LogInv.append (h : LogInv members base s book A) {p : Proc} {e : LogEntry}
    (hvote : VoteInv members (s.put i p []) book') (hbook : book.Extends book')
    (hi : i ∈ members) (hlead : (s.node i).state = .leader)
    (hentry : e.term = (s.node i).currentTerm) (hlog : p.node.log = (s.node i).log.append e)
    (hstate : p.node.state = .leader) (hterm : p.node.currentTerm = (s.node i).currentTerm)
    (happ : p.appends = (s.procs i).appends) :
    LogInv members base (s.put i p []) book'
      (A.extend (s.node i).currentTerm i (s.node i).log.elems e) := by
  have hmem := h.member i hi
  have hled : A.led (s.node i).currentTerm = some (i, (s.node i).log.elems) := hmem.lead hlead
  have hbase : base < (s.node i).currentTerm :=
    hmem.above fun hf => absurd (hlead.symm.trans hf) (by decide)
  have hle := Archive.le_extend hled e
  have helems : p.node.log.elems = (s.node i).log.elems ++ [e] := by
    rw [hlog, GoSlice.elems_append]
  have hmove : TermMove (s.node i) p.node := .stay (hstate.trans hlead.symm) hterm
  obtain ⟨hfloor, habove⟩ := hmem.floor_move hmove
  refine h.update hvote hbook hi hle (h.ok.extend hbase hled hentry)
    ⟨Or.inr helems, hfloor, habove, fun _ => ?_, fun c hc => ?_⟩ hmove (fun T c L hL => ?_)
    (by simp)
  · rw [hterm, helems]
    exact Function.update_self _ _ _
  · rw [happ] at hc
    refine (hmem.call c hc).mono hle fun hs => ?_
    have hin := (hmem.call c hc).inside hs
    rw [hlog]
    exact ⟨hin.append e, GoSlice.read_append hin e⟩
  · rcases Archive.of_extend_led hL with ⟨hT, hc, -⟩ | hold
    · exact Or.inr ⟨hc, hT.trans hterm.symm, hstate⟩
    · exact Or.inl hold

omit [GrowthPolicy] in
/-- What `sendAppendEntries` builds is cut from the log as it is. -/
theorem sendOutcome_request {r : RaftNode} {peer : String} {id : ℕ} {c : AppendCall}
    (h : r.sendOutcome peer id = .request c) :
    c.id = id ∧ c.peer = peer ∧ c.term = r.currentTerm ∧ c.prevLogIndex < r.log.len ∧
      c.entries = r.log.view (c.prevLogIndex + 1) ∧
      (0 < c.prevLogIndex → c.prevLogTerm = r.termAt c.prevLogIndex) ∧ c.sent = false := by
  have hpos : 0 < r.nextIdx peer := by
    unfold nextIdx
    split
    · exact Nat.one_pos
    · exact Nat.pos_of_ne_zero ‹_›
  unfold sendOutcome at h
  dsimp only at h
  split at h
  · cases h
  split at h
  · cases h
  · rename_i _ hlen
    injection h with h
    subst h
    have hsucc : r.nextIdx peer - 1 + 1 = r.nextIdx peer := Nat.sub_add_cancel hpos
    refine ⟨rfl, rfl, rfl, ?_, ?_, fun h => ?_, rfl⟩
    · show r.nextIdx peer - 1 < r.log.len
      omega
    · show r.log.view (r.nextIdx peer) = r.log.view (r.nextIdx peer - 1 + 1)
      rw [hsucc]
    · exact if_pos h

omit [GrowthPolicy] in
theorem termAt_eq {r : RaftNode} {k : ℕ} (h : k < r.log.len) :
    r.log.elems[k]?.map LogEntry.term = some (r.termAt k) := by
  unfold termAt
  rw [List.getElem?_eq_getElem (show k < r.log.elems.length from h)]
  rfl

omit [GrowthPolicy] in
/-- The consistency check, in terms of the log. -/
theorem RaftNode.Accepts.check {r : RaftNode} {args : AppendEntriesArgs} (h : r.Accepts args) :
    args.prevLogIndex = 0 ∨
      r.log.elems[args.prevLogIndex]?.map LogEntry.term = some args.prevLogTerm := by
  rcases h.2.2 with hzero | hterm
  · exact Or.inl hzero
  · exact Or.inr (hterm ▸ termAt_eq h.2.1)

theorem RaftNode.Accepts.log {r : RaftNode} {args : AppendEntriesArgs} (h : r.Accepts args) :
    (r.appendEntries args).1.log =
      r.log.splice LogEntry.term (args.prevLogIndex + 1) args.entries := by
  rw [appendEntries_accept h, acceptEntries_log, observeTerm_log]

omit [GrowthPolicy] in
/-- A leader builds a request. -/
theorem LogInv.send (h : LogInv members base s book A) {p : Proc} {peer : String}
    {c : AppendCall} (hvote : VoteInv members (s.put i p []) book') (hbook : book.Extends book')
    (hi : i ∈ members) (hpeer : peer ∈ (s.node i).peers.keys)
    (hlead : (s.node i).state = .leader)
    (hc : (s.node i).sendOutcome peer (s.procs i).nextId = .request c)
    (hlog : p.node.log = (s.node i).log) (hstate : p.node.state = .leader)
    (hterm : p.node.currentTerm = (s.node i).currentTerm)
    (happ : p.appends = (s.procs i).appends ++ [c]) :
    LogInv members base (s.put i p []) book' A := by
  have hmem := h.member i hi
  have hled : A.led (s.node i).currentTerm = some (i, (s.node i).log.elems) := hmem.lead hlead
  have hmove : TermMove (s.node i) p.node := .stay (hstate.trans hlead.symm) hterm
  obtain ⟨hfloor, habove⟩ := hmem.floor_move hmove
  obtain ⟨-, hcpeer, hcterm, hprev, hwin, hpt, -⟩ := sendOutcome_request hc
  -- the new call carries the tail of the leader's whole log
  have hcall : CallOk A i p.node c := by
    refine ⟨?_, fun _ => ?_, fun _ => ?_, fun _ => ⟨(s.node i).log.elems,
      ⟨_, ?_, List.prefix_rfl⟩, hmem.known, hprev, fun hpos => ?_, ?_⟩⟩
    · have hok := h.vote.member i hi
      have hother := ((hok.settled.mem_peers peer).mp hpeer).2
      rwa [hok.self, ← hcpeer] at hother
    · rw [hwin, hlog]
      exact GoSlice.inside_view _ hprev
    · rw [hwin, hlog, GoSlice.read_view, List.length_drop]
      rfl
    · rw [hcterm]
      exact hled
    · rw [hpt hpos]
      exact termAt_eq hprev
    · rw [hlog, hwin, GoSlice.read_view]
  refine h.update hvote hbook hi (.refl A) h.ok
    ⟨?_, hfloor, habove, fun _ => ?_, fun c' hc' => ?_⟩ hmove (fun _ _ _ hL => Or.inl hL) (by simp)
  · rw [hlog]
    exact hmem.known
  · rw [hterm, hlog]
    exact hled
  · rw [happ] at hc'
    rcases List.mem_append.mp hc' with hc' | hc'
    · refine (hmem.call c' hc').mono (.refl A) fun hs => ?_
      rw [hlog]
      exact ⟨(hmem.call c' hc').inside hs, rfl⟩
    · rw [List.mem_singleton.mp hc']
      exact hcall

omit [GrowthPolicy] in
/-- A request is marshalled: its window still shows what it was built from. -/
theorem LogInv.marshal (h : LogInv members base s book A) {c : AppendCall}
    (hvote : VoteInv members
      (s.put i { s.procs i with appends := Proc.markSent (s.procs i).appends c.id }
        [.appendRequest (s.node i).selfAddr c.id c.peer ((s.node i).marshal c)]) book')
    (hbook : book.Extends book') (hi : i ∈ members) (hc : c ∈ (s.procs i).appends)
    (hsent : c.sent = false) :
    LogInv members base
      (s.put i { s.procs i with appends := Proc.markSent (s.procs i).appends c.id }
        [.appendRequest (s.node i).selfAddr c.id c.peer ((s.node i).marshal c)]) book' A := by
  have hmem := h.member i hi
  have hcall := hmem.call c hc
  have hself : (s.node i).selfAddr = i := (h.vote.member i hi).self
  refine h.update hvote hbook hi (.refl A) h.ok
    ⟨hmem.known, hmem.floor, hmem.above, hmem.lead, fun c' hc' => ?_⟩ (.stay rfl rfl)
    (fun _ _ _ hL => Or.inl hL) fun caller id peer args hm => ?_
  · obtain ⟨c₀, hc₀, rfl⟩ := List.mem_map.mp hc'
    split
    · exact ⟨(hmem.call c₀ hc₀).peer_ne, by rintro ⟨⟩, by rintro ⟨⟩, by rintro ⟨⟩⟩
    · exact hmem.call c₀ hc₀
  · injection List.mem_singleton.mp hm with hcaller hid hpeer hargs
    subst hcaller hid hpeer hargs
    rw [hself]
    exact ⟨hcall.peer_ne, hcall.carried hsent⟩

/-- A member never accepts a request in a term it leads in. -/
theorem LogInv.accept_not_leader (h : LogInv members base s book A) (hi : i ∈ members)
    {caller : String} {id : ℕ} {args : AppendEntriesArgs}
    (hmsg : Message.appendRequest caller id i args ∈ s.net) (hacc : (s.node i).Accepts args) :
    ((s.node i).appendEntries args).1.state ≠ .leader := by
  rw [appendEntries_accept hacc, acceptEntries_state]
  unfold observeTerm
  split
  · simp [becomeFollower, closePending]
  · rename_i hterm
    intro hlead
    have hled := (h.member i hi).lead hlead
    rw [show (s.procs i).node.currentTerm = args.term from
      le_antisymm hacc.1 (not_lt.mp hterm)] at hled
    obtain ⟨hne, M, ⟨L, hL, -⟩, -⟩ := h.request caller id i args hmsg
    rw [hled] at hL
    exact hne (Prod.mk.inj (Option.some.inj hL)).1

/-- **A request is accepted**: the log stays or becomes the carried one. -/
theorem LogInv.accept (h : LogInv members base s book A) {caller : String} {id : ℕ}
    {args : AppendEntriesArgs} {out : List Message}
    (hout : ∀ m ∈ out, ∃ r, m = .appendReply caller id r)
    (hvote : VoteInv members
      (s.put i { s.procs i with node := ((s.node i).appendEntries args).1 } out) book')
    (hbook : book.Extends book') (hi : i ∈ members)
    (hmsg : Message.appendRequest caller id i args ∈ s.net) (hacc : (s.node i).Accepts args)
    (hkeep : (s.procs i).KeepsWindows args)
    (hmove : TermMove (s.node i) ((s.node i).appendEntries args).1) :
    LogInv members base
      (s.put i { s.procs i with node := ((s.node i).appendEntries args).1 } out) book' A := by
  have hmem := h.member i hi
  obtain ⟨hfloor, habove⟩ := hmem.floor_move hmove
  have hlog := hacc.log
  refine h.update hvote hbook hi (.refl A) h.ok
    ⟨?_, hfloor, habove, fun hl => ?_, fun c hc => ?_⟩ hmove (fun _ _ _ hL => Or.inl hL)
    fun c' id' peer args' hm => ?_
  · obtain ⟨-, M, hM⟩ := h.request caller id i args hmsg
    show A.known ((s.node i).appendEntries args).1.log.elems
    rw [hlog, GoSlice.elems_splice]
    rcases h.ok.splice_cases hM hmem.known hacc.2.1 hacc.check with ⟨-, heq⟩ | ⟨-, heq⟩
    · exact heq.symm ▸ hmem.known
    · exact heq.symm ▸ hM.known
  · exact absurd hl (h.accept_not_leader hi hmsg hacc)
  · refine (hmem.call c hc).mono (.refl A) fun hs => ?_
    show ((s.node i).appendEntries args).1.log.Inside c.entries ∧ _
    rw [hlog]
    exact GoSlice.read_splice args.entries (s.node i).log (args.prevLogIndex + 1) hacc.2.1
      ((hmem.call c hc).inside hs) fun hb => hkeep c hc hs hb
  · obtain ⟨r, hr⟩ := hout _ hm
    cases hr

/-- What is known about a careful step of member `i` to `p`, whatever it does to
the log. -/
structure Moved (members : List String) (s : Cluster) (i : String) (ev : Event) (p : Proc)
    (out : List Message) (book book' : VoteBook String) : Prop where
  mem : i ∈ members
  delivered : ev.Delivered i s.net
  step : (s.procs i).step ev = some (p, out)
  book : BookStep s (i, ev) book book'
  vote : VoteInv members (s.put i p out) book'
  same : SameMembership (s.node i) p.node
  move : TermMove (s.node i) p.node
  effect : LogEffect (s.procs i) ev p out

theorem LogInv.moved (hnd : members.Nodup) (hne : "" ∉ members) {s' : Cluster}
    {l : String × Event} (h : LogInv members base s book A) (hg : s.Careful l s')
    (hst : s.step l = some s') :
    ∃ p out book', s' = s.put l.1 p out ∧ Moved members s l.1 l.2 p out book book' := by
  obtain ⟨⟨hstatic, hplain⟩, hwrap, -⟩ := hg
  have hstays := Event.not_restarts_of_plain hplain
  obtain ⟨book', hbook, hvote⟩ := h.vote.step hnd hne hstatic hwrap
    (fun hre => absurd hre hstays) hst
  obtain ⟨i, ev⟩ := l
  obtain ⟨hi, hdel, p, out, hp, rfl⟩ := Cluster.step_inv hst
  have hsame := hstatic i hi
  rw [Cluster.put_node_self] at hsame
  rw [h.vote.members_eq] at hi
  exact ⟨p, out, book', rfl, hi, hdel, hp, hbook, hvote, hsame,
    (Proc.step_electionEffect hp).termMove hstays hwrap,
    Proc.step_logEffect (h.vote.member i hi).settled.stable hp⟩

/-- Terms only grow in a step. -/
theorem Moved.term_le {ev : Event} {p : Proc} {out : List Message}
    (hm : Moved members s i ev p out book book') (a : String) :
    (s.node a).currentTerm ≤ ((s.put i p out).node a).currentTerm :=
  s.forall_put (P := fun j q => (s.node j).currentTerm ≤ q.node.currentTerm) i p out
    hm.move.term_le (fun _ _ => le_rfl) a

/-- The configuration stays stable. -/
theorem Moved.not_joint {ev : Event} {p : Proc} {out : List Message}
    (h : Moved members s i ev p out book book') : p.node.configState ≠ .joint := by
  have hstable := (h.vote.member i h.mem).settled.stable
  rw [Cluster.put_procs_self] at hstable
  rw [hstable]
  decide

/-- **One step**, with what becomes of the archive. -/
theorem LogInv.step_grows (hnd : members.Nodup) (hne : "" ∉ members) {s' : Cluster}
    {l : String × Event} (h : LogInv members base s book A) (hg : s.Careful l s')
    (hst : s.step l = some s') :
    ∃ book' A', A.Le A' ∧
      (∀ M, A'.known M → A.known M ∨ ∃ L e, A.known L ∧ M = L ++ [e]) ∧
      LogInv members base s' book' A' := by
  obtain ⟨p, out, book', rfl, hm⟩ := h.moved hnd hne hg hst
  obtain ⟨⟨-, hplain⟩, -, hkeep⟩ := hg
  obtain ⟨i, ev⟩ := l
  refine ⟨book', ?_⟩
  cases hm.effect with
  | quiet hlog happ _ hout =>
    obtain ⟨A', hA, hinv⟩ := h.quiet hm.vote hm.book.grows hm.mem hlog happ hout hm.move
    -- a member that begins to lead opens its term in the archive
    cases hA with
    | same => exact ⟨A, .refl A, fun M hM => Or.inl hM, hinv⟩
    | elect _ hnone => exact ⟨_, Archive.le_elect hnone _ _, fun M hM => Or.inl hM, hinv⟩
  | append e hlead hentry hlog hstate hterm happ =>
    have hled := (h.member i hm.mem).lead hlead
    refine ⟨_, Archive.le_extend hled e, fun M hM => ?_,
      h.append hm.vote hm.book.grows hm.mem hlead hentry hlog hstate hterm happ⟩
    -- the one new log is the leader's with the entry
    rcases hM with hM | hM
    · exact Or.inl hM
    · exact Or.inr ⟨_, e, (h.member i hm.mem).known, hM⟩
  | send peer c hpeer hlead hc hlog hstate hterm happ =>
    exact ⟨A, .refl A, fun M hM => Or.inl hM,
      h.send hm.vote hm.book.grows hm.mem hpeer hlead hc hlog hstate hterm happ⟩
  | marshal c hc hsent =>
    exact ⟨A, .refl A, fun M hM => Or.inl hM, h.marshal hm.vote hm.book.grows hm.mem hc hsent⟩
  | accept caller id args hev hacc =>
    change ev = _ at hev
    subst hev
    exact ⟨A, .refl A, fun M hM => Or.inl hM,
      h.accept (by simp) hm.vote hm.book.grows hm.mem (hm.delivered _ rfl).2 hacc
        (hkeep args rfl hacc) hm.move⟩
  | snapshot caller id args hev =>
    change ev = _ at hev
    subst hev
    cases hplain
  | joint hjoint => exact absurd hjoint hm.not_joint
  | reboot hev => exact absurd hev (Event.not_restarts_of_plain hplain)

/-- A careful step grows book and archive so that they account for the new logs. -/
theorem LogInv.step (hnd : members.Nodup) (hne : "" ∉ members) {s' : Cluster}
    {l : String × Event} (h : LogInv members base s book A) (hg : s.Careful l s')
    (hst : s.step l = some s') :
    ∃ book' A', LogInv members base s' book' A' := by
  obtain ⟨book', A', -, -, hinv⟩ := h.step_grows hnd hne hg hst
  exact ⟨book', A', hinv⟩

end step

/-! ## Runs -/

section runs

variable [GrowthPolicy]

/-- The start of a run: distinct, named members in one stable configuration,
whose logs match pairwise and hold no term beyond anybody's current one. -/
structure StartOk (members : List String) (dataDir : String → String) (disk : String → Disk) :
    Prop where
  nodup : members.Nodup
  named : "" ∉ members
  stable : ∀ i ∈ members, (newRaftNode i members (dataDir i) (disk i)).configState = .stable
  matching : ∀ i ∈ members, ∀ j ∈ members,
    Matching LogEntry.term (newRaftNode i members (dataDir i) (disk i)).log.elems
      (newRaftNode j members (dataDir j) (disk j)).log.elems
  below : ∀ i ∈ members, ∀ j ∈ members,
    ∀ e ∈ (newRaftNode i members (dataDir i) (disk i)).log.elems,
      e.term ≤ (newRaftNode j members (dataDir j) (disk j)).currentTerm

/-- A term between those in the logs and those of the members. -/
theorem StartOk.exists_base {members : List String} {dataDir : String → String}
    {disk : String → Disk} (h : StartOk members dataDir disk) :
    ∃ base, (∀ j ∈ members, base ≤ (newRaftNode j members (dataDir j) (disk j)).currentTerm) ∧
      ∀ i ∈ members, ∀ e ∈ (newRaftNode i members (dataDir i) (disk i)).log.elems,
        e.term ≤ base := by
  rcases members.eq_nil_or_concat with rfl | ⟨rest, last, hmem⟩
  · exact ⟨0, by simp, by simp⟩
  · have hne : members.toFinset.Nonempty :=
      ⟨last, List.mem_toFinset.mpr (by rw [hmem]; simp)⟩
    obtain ⟨m, hm, hmin⟩ := members.toFinset.exists_min_image
      (fun j => (newRaftNode j members (dataDir j) (disk j)).currentTerm) hne
    exact ⟨_, fun j hj => hmin j (List.mem_toFinset.mpr hj),
      fun i hi e he => h.below i hi m (List.mem_toFinset.mp hm) e he⟩

/-- The archive of the start: the logs on disk, and no leader. -/
def startArchive (members : List String) (dataDir : String → String) (disk : String → Disk) :
    Archive LogEntry String where
  known := fun M => ∃ i ∈ members, M = (newRaftNode i members (dataDir i) (disk i)).log.elems
  led := fun _ => none

theorem logInv_boot {members : List String} {dataDir : String → String} {disk : String → Disk}
    (h : StartOk members dataDir disk) :
    ∃ base, LogInv members base (Cluster.boot members dataDir disk) (fun _ _ => none)
      (startArchive members dataDir disk) := by
  obtain ⟨base, hterm, hlog⟩ := h.exists_base
  refine ⟨base, voteInv_boot h.stable, ?_, fun i hi => ?_, by rintro T c L ⟨⟩,
    by rintro c id peer args ⟨⟩⟩
  · constructor
    · rintro M N ⟨i, hi, rfl⟩ ⟨j, hj, rfl⟩
      exact h.matching i hi j hj
    · rintro M ⟨i, hi, rfl⟩
      obtain ⟨es, hes⟩ := newRaftNode_log i members (dataDir i) (disk i)
      rw [hes]
      rfl
    · rintro T c L ⟨⟩
    · rintro M k b ⟨i, hi, rfl⟩ hb
      exact Or.inl (hlog i hi b (List.mem_of_getElem? hb))
  · have hstate := newRaftNode_state i members (dataDir i) (disk i)
    refine ⟨⟨i, hi, rfl⟩, hterm i hi, fun hs => absurd hstate hs,
      fun hl => absurd (hstate.symm.trans hl) (by decide), ?_⟩
    rintro c ⟨⟩

theorem LogInv.run {members : List String} {base : ℕ} (hnd : members.Nodup)
    (hne : "" ∉ members) {s s' : Cluster} {book : VoteBook String}
    {A : Archive LogEntry String} (h : LogInv members base s book A)
    (hrun : Run Cluster.step Cluster.Careful s s') :
    ∃ book' A', LogInv members base s' book' A' := by
  refine hrun.invariant (P := fun t => ∃ book' A', LogInv members base t book' A')
    ⟨book, A, h⟩ ?_
  rintro t l u ⟨book', A', hinv⟩ hg hst
  exact hinv.step hnd hne hg hst

/-- **Log matching**: in every state reached by steps that neither wrap a term
nor overwrite a pending request, two entries of equal term at one index mean
that the two logs agree up to that index. -/
theorem logMatching {members : List String} {dataDir : String → String} {disk : String → Disk}
    (hstart : StartOk members dataDir disk) {s : Cluster}
    (hrun : Run Cluster.step Cluster.Careful (Cluster.boot members dataDir disk) s)
    {i j : String} (hi : i ∈ members) (hj : j ∈ members) :
    Matching LogEntry.term (s.node i).log.elems (s.node j).log.elems := by
  obtain ⟨base, hboot⟩ := logInv_boot hstart
  obtain ⟨book, A, hinv⟩ := hboot.run hstart.nodup hstart.named hrun
  exact hinv.ok.matching _ _ (hinv.member i hi).known (hinv.member j hj).known

/-- Members whose logs are prefixes of one log may start. -/
theorem startOk_savedDisk {members : List String} (hnd : members.Nodup) (hne : "" ∉ members)
    {term commitIndex : ℕ} {entries : String → List LogEntry} {K : List LogEntry}
    (hpre : ∀ i ∈ members, entries i <+: K) (hbelow : ∀ e ∈ K, e.term ≤ term) :
    StartOk members (fun _ => "data")
      fun i => Cluster.savedDisk members term commitIndex (entries i) := by
  have hnew := fun i => newRaftNode_savedDisk i members (show "data" ≠ "" by decide) term
    commitIndex (entries i)
  refine ⟨hnd, hne, fun i _ => (hnew i).2.2.1, fun i hi j hj => ?_, fun i hi j _ e he => ?_⟩
  · rw [(hnew i).1, (hnew j).1]
    exact matching_of_prefix ((List.prefix_cons_inj _).mpr (hpre i hi))
      ((List.prefix_cons_inj _).mpr (hpre j hj))
  · rw [(hnew i).1] at he
    rw [(hnew j).2.1]
    rcases List.mem_cons.mp he with rfl | he
    · exact Nat.zero_le _
    · exact hbelow e ((hpre i hi).subset he)

end runs

section traces

open scoped GrowthPolicy

/-- A log of `n` entries of term 0 behind the sentinel. -/
def history (n : ℕ) : List LogEntry := (List.range n).map fun k => { term := 0, index := k + 1 }

theorem history_prefix {m n : ℕ} (h : m ≤ n) : history m <+: history n := by
  refine List.IsPrefix.map _ ?_
  obtain ⟨k, rfl⟩ := Nat.exists_eq_add_of_le h
  rw [List.range_add]
  exact List.prefix_append _ _

theorem term_of_mem_history {n : ℕ} {e : LogEntry} (h : e ∈ history n) : e.term = 0 := by
  obtain ⟨k, -, rfl⟩ := List.mem_map.mp h
  rfl

/-- The vote request of a candidate whose log is the shorter history. -/
def voteArgs (candidate : String) (term : ℕ) : RequestVoteArgs where
  term := term
  candidateId := candidate
  lastLogIndex := 999
  lastLogTerm := 0

/-- An `AppendEntries` request behind the shorter history. -/
def appendArgs (leader : String) (term : ℕ) (entries : List LogEntry) : AppendEntriesArgs where
  term := term
  leaderId := leader
  prevLogIndex := 999
  prevLogTerm := 0
  entries := entries
  leaderCommit := 0

/-- The files of four members; `p` and `q` are one entry ahead of `a` and `b`. -/
def fourDisks (i : String) : Disk :=
  Cluster.savedDisk ["a", "b", "p", "q"] 0 0 (history (if i = "p" ∨ i = "q" then 1000 else 999))

theorem startOk_fourDisks : StartOk ["a", "b", "p", "q"] (fun _ => "data") fourDisks := by
  refine startOk_savedDisk (by decide) (by decide) (K := history 1000) (fun i _ => ?_)
    fun e he => le_of_eq (term_of_mem_history he)
  split
  · exact history_prefix le_rfl
  · exact history_prefix (by decide)

/-- `a` is elected by `q` and `p` in term 1, takes two commands and brings them
to `q`. -/
def replicateToQ : List (String × Event) :=
  [("a", .electionTimeout),
    ("q", .requestVote "a" 0 (voteArgs "a" 1)),
    ("p", .requestVote "a" 0 (voteArgs "a" 1)),
    ("a", .voteReply 0 "q" { term := 1, voteGranted := true }),
    ("a", .voteReply 0 "p" { term := 1, voteGranted := true }),
    ("a", .submitCommand "t" 0 [1]),
    ("a", .submitCommand "t" 0 [2]),
    ("a", .sendAppendEntries "q"),
    ("a", .marshal 1),
    ("q", .appendEntries "a" 1 (appendArgs "a" 1
      [{ term := 1, index := 1000, topic := "t", data := [1] },
        { term := 1, index := 1001, topic := "t", data := [2] }]))]

/-- `a` builds the same request for `p`, but before it is marshalled `b` becomes
leader in term 2 and replaces `a`'s first command by its own. -/
def overwritePending : List (String × Event) :=
  [("a", .sendAppendEntries "p"),
    ("b", .electionTimeout),
    ("b", .electionTimeout),
    ("a", .requestVote "b" 1 (voteArgs "b" 2)),
    ("q", .requestVote "b" 1 (voteArgs "b" 2)),
    ("b", .voteReply 1 "a" { term := 2, voteGranted := true }),
    ("b", .voteReply 1 "q" { term := 2, voteGranted := true }),
    ("b", .submitCommand "t" 0 [3]),
    ("b", .sendAppendEntries "a"),
    ("b", .marshal 2),
    ("a", .appendEntries "b" 2 (appendArgs "b" 2
      [{ term := 2, index := 1000, topic := "t", data := [3] }])),
    ("a", .marshal 2),
    ("p", .appendEntries "a" 2 (appendArgs "a" 1
      [{ term := 2, index := 1000, topic := "t", data := [3] },
        { term := 1, index := 1001, topic := "t", data := [2] }]))]

theorem logMatching_fourMembers :
    ∃ s : Cluster, (s.node "q").log.len = 1002 ∧
      Matching LogEntry.term (s.node "a").log.elems (s.node "q").log.elems := by
  obtain ⟨s, hrun, hlen⟩ : ∃ s, Run Cluster.step Cluster.Careful
      (Cluster.boot ["a", "b", "p", "q"] (fun _ => "data") fourDisks) s ∧
      (s.node "q").log.len = 1002 :=
    exists_run_of_execWith replicateToQ (by decide +kernel)
  exact ⟨s, hlen, logMatching startOk_fourDisks hrun (by decide) (by decide)⟩

/-- The second request reaches `p` with `b`'s entry of term 2 in front of `a`'s
entry of term 1: `p` and `q` hold the same entry at index 1001 and different
ones at index 1000. -/
theorem logs_mismatch_after_overwrite :
    StartOk ["a", "b", "p", "q"] (fun _ => "data") fourDisks ∧
      ∃ s, Run Cluster.step Cluster.Replicating
        (Cluster.boot ["a", "b", "p", "q"] (fun _ => "data") fourDisks) s ∧
        ¬ Matching LogEntry.term (s.node "p").log.elems (s.node "q").log.elems := by
  refine ⟨startOk_fourDisks, ?_⟩
  obtain ⟨s, hrun, hp, hq, hne⟩ : ∃ s, Run Cluster.step Cluster.Replicating
      (Cluster.boot ["a", "b", "p", "q"] (fun _ => "data") fourDisks) s ∧
      (s.node "p").log.elems[1001]?
        = some { term := 1, index := 1001, topic := "t", data := [2] } ∧
      (s.node "q").log.elems[1001]?
        = some { term := 1, index := 1001, topic := "t", data := [2] } ∧
      ((s.node "p").log.elems.take 1002)[1000]? ≠ ((s.node "q").log.elems.take 1002)[1000]? :=
    exists_run_of_execWith (replicateToQ ++ overwritePending) (by decide +kernel)
  refine ⟨s, hrun, fun hmatch => hne ?_⟩
  rw [hmatch 1001 _ _ hp hq rfl]

end traces

end DistributedMQ.Raft
