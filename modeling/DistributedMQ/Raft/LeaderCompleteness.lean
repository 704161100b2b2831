import DistributedMQ.Lib.Replication
import DistributedMQ.Raft.Acks

/-!
# Leader completeness

A cluster is seen as a `View` (`Cluster.view`): its terms, logs and candidates,
with the vote book, the archive and the ghost record `acc` of what every member
has accepted in every term. A step of the cluster is a `View.ballot` followed by
`View.elect`, `View.extend`, `View.accept` or nothing.

- `CommitInv`: the view is in order, and the leaders' `matchIndex` and the
  replies on the wire say no more than `acc`.
- `CommitInv.step` and `CommitInv.run`: it holds in every state reached.
- `leaderCompleteness`: what a leader commits, every later leader has.

`isLogUpToDate` prefers the wrong log: a vote is granted only to a candidate
whose log is *behind* the voter's. Leader completeness fails as soon as the
voter's surplus was committed (`leader_lacks_committed_entry`). The runs of
`leaderCompleteness` are therefore those in which a voter's surplus over its
candidate can no longer be on a majority (`Cluster.VotesCovered`), and in which
a leader drops acknowledgements of its earlier terms (`Cluster.RepliesCurrent`),
which the code counts.
-/

namespace DistributedMQ.Raft

open RaftNode Machine TermLog

/-! ## Guards -/

/-- The event is not about snapshots. -/
def Event.noSnapshot : Event → Bool
  | .sendSnapshot _ => false
  | .installSnapshot _ _ _ => false
  | .snapshotFailed _ => false
  | .snapshotReply _ _ => false
  | _ => true

/-- The request a `RequestVote` event serves. -/
def Event.voteArgs : Event → Option RequestVoteArgs
  | .requestVote _ _ args => some args
  | _ => none

namespace Cluster

/-- A majority has the entry or is in no later term than the entry's. -/
def MayCommit (s : Cluster) (n : ℕ) (e : LogEntry) : Prop :=
  Majority s.members fun p =>
    (s.node p).log.elems[n]? = some e ∨ (s.node p).currentTerm ≤ e.term

/-- Candidate `c` has every entry of voter `v` that may be committed. -/
def Covered (s : Cluster) (v c : String) : Prop :=
  ∀ n e, (s.node v).log.elems[n]? = some e → s.MayCommit n e → (s.node c).log.elems[n]? = some e

/-- A vote goes to a running candidate only if its log covers the voter's. -/
def VotesCovered [GrowthPolicy] (s : Cluster) (l : String × Event) : Prop :=
  ∀ args ∈ l.2.voteArgs, ((s.node l.1).requestVote args).2.voteGranted = true →
    (s.node args.candidateId).state = .candidate →
    (s.node args.candidateId).currentTerm = args.term → s.Covered l.1 args.candidateId

/-- The steps leader completeness is about: static membership, no snapshots, no
restart. -/
def Committing (s : Cluster) (l : String × Event) (s' : Cluster) : Prop :=
  s.Replicating l s' ∧ l.2.noSnapshot = true

/-- Those of them that make it hold. -/
structure Completing [GrowthPolicy] (s : Cluster) (l : String × Event) (s' : Cluster) : Prop where
  careful : s.Careful l s'
  noSnapshot : l.2.noSnapshot = true
  votes : s.VotesCovered l
  replies : s.RepliesCurrent l

instance (s : Cluster) (n : ℕ) (e : LogEntry) : Decidable (s.MayCommit n e) :=
  inferInstanceAs (Decidable (Majority _ _))

/-- What a voter has and its candidate lacks may not be committed. -/
theorem covered_iff {s : Cluster} {v c : String} : s.Covered v c ↔
    ∀ x ∈ surplus (s.node v).log.elems (s.node c).log.elems 0, ¬ s.MayCommit x.1 x.2 := by
  constructor
  · rintro hcov ⟨n, e⟩ hx hmay
    obtain ⟨k, hk, hv, hc⟩ := (mem_surplus _ _ _).mp hx
    obtain rfl : n = k := by omega
    exact hc (hcov n e hv hmay)
  · intro h n e hv hmay
    by_contra hc
    exact h (n, e) ((mem_surplus _ _ _).mpr ⟨n, by omega, hv, hc⟩) hmay

instance (s : Cluster) (v c : String) : Decidable (s.Covered v c) :=
  decidable_of_iff _ covered_iff.symm

instance (s : Cluster) (l : String × Event) (s' : Cluster) : Decidable (s.Committing l s') :=
  inferInstanceAs (Decidable (s.Replicating l s' ∧ l.2.noSnapshot = true))

instance [GrowthPolicy] (s : Cluster) (l : String × Event) (s' : Cluster) :
    Decidable (s.Completing l s') :=
  decidable_of_iff
    (s.Careful l s' ∧ l.2.noSnapshot = true ∧
      (∀ args ∈ l.2.voteArgs, ((s.node l.1).requestVote args).2.voteGranted = true →
        (s.node args.candidateId).state = .candidate →
        (s.node args.candidateId).currentTerm = args.term → s.Covered l.1 args.candidateId) ∧
      s.RepliesCurrent l)
    ⟨fun ⟨h₁, h₂, h₃, h₄⟩ => ⟨h₁, h₂, h₃, h₄⟩, fun h => ⟨h.careful, h.noSnapshot, h.votes, h.replies⟩⟩

/-! ## The view of a cluster -/

/-- The cluster as a `View`, with the ghost records. -/
def view (s : Cluster) (book : VoteBook String) (A : Archive LogEntry String)
    (acc : String → ℕ → ℕ) : View LogEntry String where
  term := fun j => (s.node j).currentTerm
  log := fun j => (s.node j).log.elems
  running := fun j => (s.node j).state = .candidate
  book := book
  archive := A
  acc := acc

/-- A step that leaves the log alone moves terms, candidates and votes. -/
theorem view_put_of_log_eq (s : Cluster) {i : String} {p : Proc} (out : List Message)
    (hlog : p.node.log = (s.node i).log) (book book' : VoteBook String)
    (A : Archive LogEntry String) (acc : String → ℕ → ℕ) :
    (s.put i p out).view book' A acc =
      (s.view book A acc).ballot (fun j => ((s.put i p out).node j).currentTerm)
        (fun j => ((s.put i p out).node j).state = .candidate) book' := by
  have hlogs : (fun j => ((s.put i p out).node j).log.elems) = fun j => (s.node j).log.elems := by
    funext j
    refine s.forall_put (P := fun j q => q.node.log.elems = (s.node j).log.elems) i p out ?_
      (fun _ _ => rfl) j
    rw [hlog]
  unfold view View.ballot
  rw [hlogs]

/-- A step that changes the log of member `i` as well. -/
theorem view_put (s : Cluster) (i : String) (p : Proc) (out : List Message)
    (book book' : VoteBook String) (A A' : Archive LogEntry String) (acc acc' : String → ℕ → ℕ) :
    (s.put i p out).view book' A' acc' =
      { (s.view book A acc).ballot (fun j => ((s.put i p out).node j).currentTerm)
          (fun j => ((s.put i p out).node j).state = .candidate) book' with
        log := Function.update (s.view book A acc).log i p.node.log.elems
        archive := A'
        acc := acc' } := by
  have hlogs : (fun j => ((s.put i p out).node j).log.elems) =
      Function.update (s.view book A acc).log i p.node.log.elems := by
    funext j
    refine s.forall_put (P := fun j q => q.node.log.elems =
      Function.update (s.view book A acc).log i p.node.log.elems j) i p out ?_ (fun k hk => ?_) j
    · rw [Function.update_self]
    · rw [Function.update_of_ne hk]
      rfl
  unfold view View.ballot at *
  rw [hlogs]

end Cluster

/-! ## The invariant -/

/-- What `acc` has to do with one member. -/
structure CommitMember (members : List String) (acc : String → ℕ → ℕ) (i : String) (p : Proc) :
    Prop where
  config : members.length ≤ p.node.currentConfig.len
  tracks : p.node.Tracks
  unique : ∀ c ∈ p.appends, ∀ c' ∈ p.appends, c.id = c'.id → c.claim = c'.claim
  fresh : ∀ c ∈ p.appends, c.id < p.nextId
  peer : ∀ c ∈ p.appends, c.peer ∈ p.node.peers.keys
  own : p.node.state = .leader → p.node.log.len ≤ acc i p.node.currentTerm + 1
  acked : p.node.state = .leader → ∀ q m, p.node.matchIndex.lookup q = some m →
    m ≤ acc q p.node.currentTerm

structure CommitInv (members : List String) (base : ℕ) (s : Cluster) (book : VoteBook String)
    (A : Archive LogEntry String) (acc : String → ℕ → ℕ) : Prop where
  log : LogInv members base s book A
  view : (s.view book A acc).Ok LogEntry.term sentinel base members
  member : ∀ i ∈ members, CommitMember members acc i (s.procs i)
  asked : ∀ c id peer args, Message.voteRequest c id peer args ∈ s.net →
    args.term ≤ (s.node c).currentTerm
  request : ∀ c id peer args, Message.appendRequest c id peer args ∈ s.net →
    Answers (s.procs c) id peer args
  reply : ∀ c id reply, Message.appendReply c id reply ∈ s.net → reply.success = true →
    ∃ peer args, Message.appendRequest c id peer args ∈ s.net ∧
      args.prevLogIndex + args.entries.length ≤ acc peer args.term

/-- An acknowledgement says no more than `acc`. -/
def Recorded (acc : String → ℕ → ℕ) (_leader peer : String) (T m : ℕ) : Prop := m ≤ acc peer T

theorem CommitInv.acks {members : List String} {base : ℕ} {s : Cluster} {book : VoteBook String}
    {A : Archive LogEntry String} {acc : String → ℕ → ℕ}
    (h : CommitInv members base s book A acc) : AckInv members s (Recorded acc) where
  member i hi :=
    have hmem := h.member i hi
    ⟨hmem.tracks, ⟨hmem.unique, hmem.fresh, hmem.peer⟩, hmem.acked⟩
  request := h.request
  reply := h.reply

section step

variable [GrowthPolicy] {members : List String} {base : ℕ} {s : Cluster}
  {book book' : VoteBook String} {A A' : Archive LogEntry String} {acc acc' : String → ℕ → ℕ}
  {i : String} {ev : Event} {p : Proc} {out : List Message}

/-- What leaders know and what is on the wire after a step. -/
theorem CommitInv.acks_step (h : CommitInv members base s book A acc)
    (hm : Moved members s i ev p out book book') (hg : s.Completing (i, ev) (s.put i p out))
    (hacc : ∀ q T, acc q T ≤ acc' q T)
    (hout : ∀ c id reply, Message.appendReply c id reply ∈ out → reply.success = true →
      ∃ peer args, Message.appendRequest c id peer args ∈ s.net ∧
        args.prevLogIndex + args.entries.length ≤ acc' peer args.term) :
    AckInv members (s.put i p out) (Recorded acc') := by
  refine h.acks.step h.log hm hg.careful.1.2 (fun id reply hev => ?_) hg.replies
    (fun _ q T m hle => Nat.le_trans hle (hacc q T)) (fun _ _ _ => Nat.zero_le _) hout
  subst hev
  cases hg.noSnapshot

/-- A step of member `i` keeps the invariant if `acc` grows, the new view is in
order and so are the acknowledgements. -/
theorem CommitInv.update (h : CommitInv members base s book A acc)
    (hm : Moved members s i ev p out book book')
    (hlog : LogInv members base (s.put i p out) book' A')
    (hacc : ∀ q T, acc q T ≤ acc' q T)
    (hview : ((s.put i p out).view book' A' acc').Ok LogEntry.term sentinel base members)
    (hacks : AckInv members (s.put i p out) (Recorded acc'))
    (hown : p.node.state = .leader → p.node.log.len ≤ acc' i p.node.currentTerm + 1) :
    CommitInv members base (s.put i p out) book' A' acc' where
  log := hlog
  view := hview
  member j hj := by
    obtain ⟨htracks, ⟨hunique, hfresh, hpeer⟩, hacked⟩ := hacks.member j hj
    obtain ⟨hconfig, hown⟩ := s.forall_put (P := fun j q => j ∈ members →
      members.length ≤ q.node.currentConfig.len ∧
        (q.node.state = .leader → q.node.log.len ≤ acc' j q.node.currentTerm + 1)) i p out
      (fun hi => ⟨hm.same.currentConfig ▸ (h.member i hi).config, hown⟩)
      (fun k _ hk => ⟨(h.member k hk).config, fun hl =>
        ((h.member k hk).own hl).trans (Nat.succ_le_succ (hacc _ _))⟩) j hj
    exact ⟨hconfig, htracks, hunique, hfresh, hpeer, hown, hacked⟩
  asked c id peer args hmsg := by
    -- terms only grow, and a new request is of the candidate's new term
    rcases List.mem_append.mp hmsg with hmsg | hmsg
    · exact (h.asked c id peer args hmsg).trans (hm.term_le c)
    · obtain ⟨hc, hterm⟩ := (Proc.step_electionEffect hm.step).voteRequest_term hmsg
      rw [(h.log.vote.member i hm.mem).self] at hc
      rw [hc, Cluster.put_node_self, hterm]
  request := hacks.request
  reply := hacks.reply

/-! ## The votes of a step -/

omit [GrowthPolicy] in
/-- What a voter has accepted it still holds, as far as it may be committed, so
a log that covers the voter's has it too. -/
theorem CommitInv.covers_of_covered (h : CommitInv members base s book A acc) {v c : String}
    (hv : v ∈ members) (hcov : s.Covered v c) (t : ℕ) :
    (s.view book A acc).Covers LogEntry.term members c v t := by
  intro T k e hentry _ hk hch
  refine hcov k e (h.view.holds v hv T k e hentry hk hch) ?_
  unfold Cluster.MayCommit
  rw [h.log.vote.members_eq]
  refine Majority.mono (fun q hq hor => ?_) hch
  rcases hor with hacc | hterm
  · exact Or.inl (h.view.holds q hq T k e hentry hacc hch)
  · rw [hentry.2.1]
    exact Or.inr hterm

/-- The candidates of a step: the new ones, and a member that begins to lead. -/
theorem CommitInv.ballot (h : CommitInv members base s book A acc)
    (hm : Moved members s i ev p out book book') (hg : s.Completing (i, ev) (s.put i p out))
    {running' : String → Prop}
    (hrun : ∀ c, running' c → ((s.put i p out).node c).state = .candidate ∨
      (c = i ∧ p.node.state = .leader ∧ A.led p.node.currentTerm = none)) :
    ((s.view book A acc).ballot (fun j => ((s.put i p out).node j).currentTerm) running'
      book').Ok LogEntry.term sentinel base members := by
  refine h.view.ballot (fun j _ => hm.term_le j) (fun c hc hrunning => ?_) hm.book.grows
    fun v hv t c hbook => ?_
  -- the candidates
  · by_cases hci : c = i
    · subst hci
      rw [Cluster.put_node_self]
      have hrunning := hrun c hrunning
      rw [Cluster.put_node_self] at hrunning
      cases hm.move with
      | stay hstate hterm =>
        rcases hrunning with hcand | ⟨-, hlead, hnone⟩
        · exact Or.inl ⟨hstate.symm.trans hcand, hterm⟩
        · -- it would have been the leader of its term before
          have hled := (h.log.member c hc).lead (hstate ▸ hlead)
          rw [hterm] at hnone
          exact absurd (hled.symm.trans hnone) (by simp)
      | down hstate _ =>
        rcases hrunning with hcand | ⟨-, hlead, -⟩
        · exact absurd (hstate.symm.trans hcand) (by decide)
        · exact absurd (hstate.symm.trans hlead) (by decide)
      | campaign _ hterm => exact Or.inr (hterm ▸ Nat.lt_succ_self _)
      | elected hwas _ hterm => exact Or.inl ⟨hwas, hterm⟩
    · rw [Cluster.put_node_ne _ _ _ _ hci]
      rcases hrun c hrunning with hcand | ⟨hself, -⟩
      · rw [Cluster.put_node_ne _ _ _ _ hci] at hcand
        exact Or.inl ⟨hcand, rfl⟩
      · exact absurd hself hci
  -- the votes that are cast
  · rcases hm.book.cast v t c hbook with hold | hcast
    · exact Or.inl hold
    · have hterm : t ≤ ((s.put i p out).node v).currentTerm := by
        rcases ((hm.vote.member v hv).booked t c hbook).2 with hlt | ⟨heq, -⟩
        · exact le_of_lt hlt
        · exact le_of_eq heq
      cases hcast with
      | own hvi hev ht hc =>
        subst hc
        exact Or.inr ⟨hterm, fun _ => hterm, fun hne => absurd rfl hne⟩
      | granted caller id args hl hgrant ht hc =>
        obtain ⟨rfl, rfl⟩ := Prod.mk.inj hl
        subst ht hc
        have hmsg := (hm.delivered _ rfl).2
        obtain ⟨-, hcand, -⟩ := h.log.vote.request caller id i args hmsg
        refine Or.inr ⟨hterm, fun _ => ?_, fun hne _ hrunning hnow _ => ?_⟩
        · rw [hcand]
          exact (h.asked caller id i args hmsg).trans (hm.term_le caller)
        · -- the candidate is another member and still runs in the term of its request
          have hci : args.candidateId ≠ i := fun heq => hne heq.symm
          rw [Cluster.put_node_ne _ _ _ _ hci] at hnow
          rcases hrun _ hrunning with hstate | ⟨hself, -⟩
          · rw [Cluster.put_node_ne _ _ _ _ hci] at hstate
            exact h.covers_of_covered hv (hg.votes args rfl hgrant hstate hnow) _
          · exact absurd hself hci

/-! ## Each effect keeps the invariant -/

/-- A member that leads in a term with a leader in the archive has led in it
before. -/
theorem CommitInv.led_before (h : CommitInv members base s book A acc)
    (hm : Moved members s i ev p out book book')
    (hlog : LogInv members base (s.put i p out) book' A) (hlead : p.node.state = .leader) :
    (s.node i).state = .leader ∧ p.node.currentTerm = (s.node i).currentTerm := by
  have hled := (hlog.member i hm.mem).lead
  rw [Cluster.put_procs_self] at hled
  obtain ⟨-, -, hle, hkeep⟩ := h.log.led _ _ _ (hled hlead)
  have heq := le_antisymm hle hm.move.term_le
  exact ⟨hkeep heq.symm, heq⟩

/-- The view after a step that leaves log and archive alone. -/
theorem CommitInv.view_quiet (h : CommitInv members base s book A acc)
    (hm : Moved members s i ev p out book book') (hg : s.Completing (i, ev) (s.put i p out))
    (hlog : p.node.log = (s.node i).log) :
    ((s.put i p out).view book' A acc).Ok LogEntry.term sentinel base members := by
  rw [s.view_put_of_log_eq out hlog book]
  exact h.ballot hm hg fun c hc => Or.inl hc

/-- The view after member `i` has begun to lead. -/
theorem CommitInv.view_elect (h : CommitInv members base s book A acc)
    (hm : Moved members s i ev p out book book') (hg : s.Completing (i, ev) (s.put i p out))
    (hlog : p.node.log = (s.node i).log) (hlead : p.node.state = .leader)
    (hnone : A.led p.node.currentTerm = none) (hbase : base < p.node.currentTerm) :
    ((s.put i p out).view book' (A.elect p.node.currentTerm i p.node.log.elems)
      (View.setAcc acc i p.node.currentTerm (p.node.log.len - 1))).Ok
        LogEntry.term sentinel base members := by
  have hterm : ((s.put i p out).node i).currentTerm = p.node.currentTerm := by
    rw [Cluster.put_node_self]
  -- the member counts as a candidate of its term up to now
  have hballot : ((s.view book A acc).ballot (fun j => ((s.put i p out).node j).currentTerm)
      (fun j => ((s.put i p out).node j).state = .candidate ∨ j = i) book').Ok
        LogEntry.term sentinel base members :=
    h.ballot hm hg fun c hc => hc.imp id fun hci => ⟨hci, hlead, hnone⟩
  have hwon := (hm.vote.member i hm.mem).leader
  rw [Cluster.put_procs_self] at hwon
  have hview := hballot.elect hm.mem (lt_of_lt_of_eq hbase hterm.symm) (Or.inr rfl)
    ((congrArg A.led hterm).trans hnone) (by rw [← hterm] at hwon; exact hwon hlead)
  have hrun : (fun j => (((s.put i p out).node j).state = .candidate ∨ j = i) ∧ j ≠ i) =
      fun j => ((s.put i p out).node j).state = .candidate := by
    funext j
    refine propext ⟨fun ⟨hor, hne⟩ => hor.resolve_right hne, fun hc => ⟨Or.inl hc, ?_⟩⟩
    rintro rfl
    rw [Cluster.put_node_self, hlead] at hc
    cases hc
  rw [s.view_put_of_log_eq out hlog book]
  simpa only [View.elect, View.ballot, Cluster.view, hrun, hterm, hlog, GoSlice.len] using hview

theorem CommitInv.quiet (h : CommitInv members base s book A acc)
    (hm : Moved members s i ev p out book book') (hg : s.Completing (i, ev) (s.put i p out))
    (hlog : p.node.log = (s.node i).log) (happ : p.appends ⊆ (s.procs i).appends)
    (hout : ∀ m ∈ out, m.Mute) :
    ∃ A' acc', (∀ q T, acc q T ≤ acc' q T) ∧ A.Le A' ∧
      CommitInv members base (s.put i p out) book' A' acc' := by
  obtain ⟨A', hA, hinv⟩ := h.log.quiet hm.vote hm.book.grows hm.mem hlog happ hout hm.move
  -- what `update` asks for besides the view
  have hupdate : ∀ {acc'}, (∀ q T, acc q T ≤ acc' q T) →
      ((s.put i p out).view book' A' acc').Ok LogEntry.term sentinel base members →
      (p.node.state = .leader → p.node.log.len ≤ acc' i p.node.currentTerm + 1) →
      CommitInv members base (s.put i p out) book' A' acc' := by
    intro acc' hacc hview hown
    refine h.update hm hinv hacc hview (h.acks_step hm hg hacc fun c id reply hmsg hsucc => ?_) hown
    rw [show reply.success = false from hout _ hmsg] at hsucc
    cases hsucc
  cases hA with
  | same =>
    refine ⟨A, acc, fun _ _ => le_rfl, .refl A, hupdate (fun _ _ => le_rfl) ?_ fun hl => ?_⟩
    · exact h.view_quiet hm hg hlog
    · obtain ⟨hwas, hterm⟩ := h.led_before hm hinv hl
      rw [hlog, hterm]
      exact (h.member i hm.mem).own hwas
  | elect hlead hnone =>
    have hpos : 0 < p.node.log.len := by
      have hknown := (hinv.member i hm.mem).known
      rw [Cluster.put_procs_self] at hknown
      exact (List.getElem?_eq_some_iff.mp (hinv.ok.root _ hknown)).1
    have hbase := (hinv.member i hm.mem).above
    rw [Cluster.put_procs_self] at hbase
    have hbase := hbase (by rw [hlead]; decide)
    have hacc : ∀ q T,
        acc q T ≤ View.setAcc acc i p.node.currentTerm (p.node.log.len - 1) q T := by
      have hzero : acc i p.node.currentTerm = 0 := h.view.acc_eq_zero hm.mem hnone
      exact View.le_setAcc (hzero ▸ Nat.zero_le _)
    refine ⟨_, _, hacc, Archive.le_elect hnone _ _,
      hupdate hacc (h.view_elect hm hg hlog hlead hnone hbase) fun _ => ?_⟩
    rw [View.setAcc_self]
    omega

/-- A leader appends an entry. -/
theorem CommitInv.append (h : CommitInv members base s book A acc) {e : LogEntry}
    (hm : Moved members s i ev p [] book book') (hg : s.Completing (i, ev) (s.put i p []))
    (hlead : (s.node i).state = .leader) (hentry : e.term = (s.node i).currentTerm)
    (hlog : p.node.log = (s.node i).log.append e) (hstate : p.node.state = .leader)
    (hterm : p.node.currentTerm = (s.node i).currentTerm)
    (happ : p.appends = (s.procs i).appends) :
    ∃ A' acc', (∀ q T, acc q T ≤ acc' q T) ∧ A.Le A' ∧
      CommitInv members base (s.put i p []) book' A' acc' := by
  have hled : A.led (s.node i).currentTerm = some (i, (s.node i).log.elems) :=
    (h.log.member i hm.mem).lead hlead
  have hbase : base < (s.node i).currentTerm :=
    (h.log.member i hm.mem).above (by rw [show (s.procs i).node.state = _ from hlead]; decide)
  have hnow : ((s.put i p []).node i).currentTerm = (s.node i).currentTerm := by
    rw [Cluster.put_node_self, hterm]
  have hpos : 0 < (s.node i).log.elems.length :=
    (List.getElem?_eq_some_iff.mp (h.log.ok.root _ (h.log.member i hm.mem).known)).1
  have hacc : ∀ q T, acc q T ≤
      View.setAcc acc i (s.node i).currentTerm (s.node i).log.elems.length q T :=
    View.le_setAcc (le_of_lt (h.view.acc_lt hm.mem hpos hled))
  refine ⟨_, _, hacc, Archive.le_extend hled e, h.update hm
    (h.log.append hm.vote hm.book.grows hm.mem hlead hentry hlog hstate hterm happ) hacc ?_
    (h.acks_step hm hg hacc (by simp)) fun _ => ?_⟩
  · have hballot : ((s.view book A acc).ballot (fun j => ((s.put i p []).node j).currentTerm)
        (fun j => ((s.put i p []).node j).state = .candidate) book').Ok
          LogEntry.term sentinel base members := h.ballot hm hg fun c hc => Or.inl hc
    have hview := hballot.extend hm.mem (lt_of_lt_of_eq hbase hnow.symm)
      ((congrArg A.led hnow).trans hled) (hentry.trans hnow.symm)
    rw [s.view_put i p [] book book' A _ acc]
    simpa only [View.extend, View.ballot, Cluster.view, hnow, hlog, GoSlice.elems_append] using hview
  · rw [hterm, View.setAcc_self, hlog]
    simp [GoSlice.len, GoSlice.elems_append]

/-- A leader builds a request. -/
theorem CommitInv.send (h : CommitInv members base s book A acc) {peer : String} {c : AppendCall}
    (hm : Moved members s i ev p [] book book') (hg : s.Completing (i, ev) (s.put i p []))
    (hpeer : peer ∈ (s.node i).peers.keys) (hlead : (s.node i).state = .leader)
    (hc : (s.node i).sendOutcome peer (s.procs i).nextId = .request c)
    (hlog : p.node.log = (s.node i).log) (hstate : p.node.state = .leader)
    (hterm : p.node.currentTerm = (s.node i).currentTerm)
    (happ : p.appends = (s.procs i).appends ++ [c]) :
    CommitInv members base (s.put i p []) book' A acc := by
  refine h.update hm (h.log.send hm.vote hm.book.grows hm.mem hpeer hlead hc hlog hstate hterm happ)
    (fun _ _ => le_rfl) (h.view_quiet hm hg hlog)
    (h.acks_step hm hg (fun _ _ => le_rfl) (by simp)) fun _ => ?_
  rw [hlog, hterm]
  exact (h.member i hm.mem).own hlead

/-- A request goes out. -/
theorem CommitInv.marshal (h : CommitInv members base s book A acc) {c : AppendCall}
    (hm : Moved members s i ev { s.procs i with appends := Proc.markSent (s.procs i).appends c.id }
      [.appendRequest (s.node i).selfAddr c.id c.peer ((s.node i).marshal c)] book book')
    (hg : s.Completing (i, ev)
      (s.put i { s.procs i with appends := Proc.markSent (s.procs i).appends c.id }
        [.appendRequest (s.node i).selfAddr c.id c.peer ((s.node i).marshal c)]))
    (hc : c ∈ (s.procs i).appends) (hsent : c.sent = false) :
    CommitInv members base
      (s.put i { s.procs i with appends := Proc.markSent (s.procs i).appends c.id }
        [.appendRequest (s.node i).selfAddr c.id c.peer ((s.node i).marshal c)]) book' A acc := by
  exact h.update hm (h.log.marshal hm.vote hm.book.grows hm.mem hc hsent) (fun _ _ => le_rfl)
    (h.view_quiet hm hg rfl) (h.acks_step hm hg (fun _ _ => le_rfl) (by simp))
    (h.member i hm.mem).own

/-- The view after a request has been merged in its term. -/
theorem CommitInv.view_accept (h : CommitInv members base s book A acc) {caller : String} {id : ℕ}
    {args : AppendEntriesArgs} (hm : Moved members s i ev p out book book')
    (hg : s.Completing (i, ev) (s.put i p out))
    (hmsg : Message.appendRequest caller id i args ∈ s.net) (hacc : (s.node i).Accepts args)
    (hterm : p.node.currentTerm = args.term)
    (hlog : p.node.log.elems =
      splice LogEntry.term (s.node i).log.elems (args.prevLogIndex + 1) args.entries) :
    ((s.put i p out).view book' A (View.setAcc acc i args.term
      (max (acc i args.term) (args.prevLogIndex + args.entries.length)))).Ok
        LogEntry.term sentinel base members := by
  have hnow : ((s.put i p out).node i).currentTerm = args.term := by
    rw [Cluster.put_node_self, hterm]
  have hballot : ((s.view book A acc).ballot (fun j => ((s.put i p out).node j).currentTerm)
      (fun j => ((s.put i p out).node j).state = .candidate) book').Ok
        LogEntry.term sentinel base members := h.ballot hm hg fun c hc => Or.inl hc
  obtain ⟨-, M, hM⟩ := h.log.request caller id i args hmsg
  rw [← hnow] at hM
  have hview := hballot.accept hm.mem hM hacc.2.1 hacc.check
  rw [s.view_put i p out book book' A _ acc]
  simpa only [View.accept, View.ballot, Cluster.view, hnow, hlog] using hview

/-- A request is accepted: its last entry is now the last one accepted. -/
theorem CommitInv.accept (h : CommitInv members base s book A acc) {caller : String} {id : ℕ}
    {args : AppendEntriesArgs}
    (hm : Moved members s i (.appendEntries caller id args)
      { s.procs i with node := ((s.node i).appendEntries args).1 }
      [.appendReply caller id ((s.node i).appendEntries args).2] book book')
    (hg : s.Completing (i, .appendEntries caller id args)
      (s.put i { s.procs i with node := ((s.node i).appendEntries args).1 }
        [.appendReply caller id ((s.node i).appendEntries args).2]))
    (hacc : (s.node i).Accepts args) :
    ∃ acc', (∀ q T, acc q T ≤ acc' q T) ∧ CommitInv members base
      (s.put i { s.procs i with node := ((s.node i).appendEntries args).1 }
        [.appendReply caller id ((s.node i).appendEntries args).2]) book' A acc' := by
  have hmsg := (hm.delivered _ rfl).2
  have hinv := h.log.accept (by simp) hm.vote hm.book.grows hm.mem hmsg hacc
    (hg.careful.2.2 args rfl hacc) hm.move
  have hterm : ((s.node i).appendEntries args).1.currentTerm = args.term := by
    rw [appendEntries_accept hacc, acceptEntries_currentTerm, observeTerm_currentTerm hacc.1]
  have hgrow : ∀ q T, acc q T ≤ View.setAcc acc i args.term
      (max (acc i args.term) (args.prevLogIndex + args.entries.length)) q T :=
    View.le_setAcc (le_max_left _ _)
  refine ⟨_, hgrow, h.update hm hinv hgrow ?_ (h.acks_step hm hg hgrow fun c id' reply hrep _ => ?_)
    fun hl => ?_⟩
  · exact h.view_accept hm hg hmsg hacc hterm (by rw [hacc.log, GoSlice.elems_splice])
  · injection List.mem_singleton.mp hrep with hc hid
    subst hc hid
    refine ⟨i, args, hmsg, ?_⟩
    rw [View.setAcc_self]
    exact le_max_right _ _
  · exact absurd hl (h.log.accept_not_leader hm.mem hmsg hacc)

/-- **One step**: what has been accepted and archived only grows. -/
theorem CommitInv.step (hnd : members.Nodup) (hne : "" ∉ members) {s' : Cluster}
    {l : String × Event} (h : CommitInv members base s book A acc) (hg : s.Completing l s')
    (hst : s.step l = some s') :
    ∃ book' A' acc', (∀ q T, acc q T ≤ acc' q T) ∧ A.Le A' ∧
      CommitInv members base s' book' A' acc' := by
  obtain ⟨p, out, book', rfl, hm⟩ := h.log.moved hnd hne hg.careful hst
  obtain ⟨i, ev⟩ := l
  have hplain : ev.plain = true := hg.careful.1.2
  refine ⟨book', ?_⟩
  cases hm.effect with
  | quiet hlog happ _ hout => exact h.quiet hm hg hlog happ hout
  | append e hlead hentry hlog hstate hterm happ =>
    exact h.append hm hg hlead hentry hlog hstate hterm happ
  | send peer c hpeer hlead hc hlog hstate hterm happ =>
    exact ⟨A, acc, fun _ _ => le_rfl, .refl A, h.send hm hg hpeer hlead hc hlog hstate hterm happ⟩
  | marshal c hc hsent =>
    exact ⟨A, acc, fun _ _ => le_rfl, .refl A, h.marshal hm hg hc hsent⟩
  | accept caller id args hev hacc =>
    change ev = _ at hev
    subst hev
    obtain ⟨acc', hgrow, hinv⟩ := h.accept hm hg hacc
    exact ⟨A, acc', hgrow, .refl A, hinv⟩
  | snapshot caller id args hev =>
    change ev = _ at hev
    subst hev
    cases hplain
  | joint hjoint => exact absurd hjoint hm.not_joint
  | reboot hev => exact absurd hev (Event.not_restarts_of_plain hplain)

end step

/-! ## Chosen entries -/

/-- A majority has accepted entry `e` of term `T` at index `n`. -/
def Chosen (members : List String) (s : Cluster) (book : VoteBook String)
    (A : Archive LogEntry String) (acc : String → ℕ → ℕ) (T n : ℕ) (e : LogEntry) : Prop :=
  (s.view book A acc).Entry LogEntry.term T n e ∧ Majority members fun p => n ≤ acc p T

theorem Chosen.mono {members : List String} {s s' : Cluster} {book book' : VoteBook String}
    {A A' : Archive LogEntry String} {acc acc' : String → ℕ → ℕ} {T n : ℕ} {e : LogEntry}
    (hacc : ∀ q T, acc q T ≤ acc' q T) (hle : A.Le A')
    (h : Chosen members s book A acc T n e) : Chosen members s' book' A' acc' T n e := by
  obtain ⟨⟨hpos, hterm, c, L, hled, hget⟩, hmaj⟩ := h
  obtain ⟨L', hled', hpre⟩ := hle.led T c L hled
  exact ⟨⟨hpos, hterm, c, L', hled', getElem?_of_prefix hpre hget⟩,
    Majority.mono (fun q _ hq => hq.trans (hacc q T)) hmaj⟩

/-- A quorum in the leader's `matchIndex` for an entry of its term is a majority
that has accepted it. -/
theorem CommitInv.chosen {members : List String} {base : ℕ} {s : Cluster}
    {book : VoteBook String} {A : Archive LogEntry String} {acc : String → ℕ → ℕ}
    (h : CommitInv members base s book A acc) {i : String} (hi : i ∈ members) {n : ℕ}
    (hpos : 0 < n) (hlead : (s.node i).state = .leader) (hlen : n < (s.node i).log.len)
    (hterm : (s.node i).termAt n = (s.node i).currentTerm)
    (hquorum : (s.node i).commitQuorum n = true) :
    ∃ e, (s.node i).log.elems[n]? = some e ∧
      Chosen members s book A acc (s.node i).currentTerm n e := by
  have hmem := h.member i hi
  have hvote := h.log.vote.member i hi
  have hget : (s.node i).log.elems[n]? = some (s.node i).log.elems[n] :=
    List.getElem?_eq_getElem hlen
  refine ⟨_, hget, ⟨hpos, ?_, i, _, (h.log.member i hi).lead hlead, hget⟩, ?_⟩
  · have hmap := termAt_eq hlen
    rw [hget, hterm] at hmap
    exact Option.some.inj hmap
  · obtain ⟨Q, hnd, hsize, hQ⟩ :=
      acks_of_commitQuorum hvote.settled.stable hmem.config hquorum
    have hpeers : ∀ q ∈ Q, q ∈ members ∧ q ≠ i := by
      intro q hq
      obtain ⟨m, hm, -⟩ := hQ q hq
      have hpeer := hmem.tracks q (mem_keys_of_lookup hm)
      have hother := (hvote.settled.mem_peers q).mp hpeer
      rwa [hvote.self] at hother
    refine ⟨i :: Q, List.nodup_cons.mpr ⟨fun hmemQ => (hpeers i hmemQ).2 rfl, hnd⟩,
      List.cons_subset.mpr ⟨hi, fun q hq => (hpeers q hq).1⟩, by simpa using hsize,
      fun q hq => ?_⟩
    rcases List.mem_cons.mp hq with rfl | hq
    · have hown := hmem.own hlead
      change (s.node q).log.len ≤ acc q (s.node q).currentTerm + 1 at hown
      omega
    · obtain ⟨m, hm, hnm⟩ := hQ q hq
      exact hnm.trans (hmem.acked hlead q m hm)

/-! ## Runs -/

section runs

variable [GrowthPolicy]

/-- Every member starts in a configuration of exactly the members. -/
def ConfigOk (members : List String) (dataDir : String → String) (disk : String → Disk) : Prop :=
  ∀ i ∈ members, ∀ a,
    a ∈ (newRaftNode i members (dataDir i) (disk i)).currentConfig.keys ↔ a ∈ members

theorem commitInv_boot {members : List String} {dataDir : String → String}
    {disk : String → Disk} (h : StartOk members dataDir disk)
    (hconfig : ConfigOk members dataDir disk) :
    ∃ base, CommitInv members base (Cluster.boot members dataDir disk) (fun _ _ => none)
      (startArchive members dataDir disk) fun _ _ => 0 := by
  obtain ⟨base, hlog⟩ := logInv_boot h
  refine ⟨base, hlog, ?_, fun i hi => ?_, by rintro c id peer args ⟨⟩, by rintro c id peer args ⟨⟩,
    by rintro c id reply ⟨⟩⟩
  · -- no term has a leader, so there is nothing to hold yet
    constructor
    case archive => exact hlog.ok
    case known => exact fun i hi => (hlog.member i hi).known
    case won => rintro T c L ⟨⟩
    case voted => rintro i _ t c ⟨⟩
    case ran => rintro i _ t c ⟨⟩
    case bound => exact fun i _ T hpos => absurd hpos (lt_irrefl _)
    case holds => rintro i _ T n e ⟨-, -, c, L, ⟨⟩, -⟩
    case complete => rintro T T' n e c L - - ⟨⟩
    case backed => rintro c _ - - v _ ⟨⟩
  · obtain ⟨htracks, ⟨hunique, hfresh, hpeer⟩, hacked⟩ :=
      (ackInv_boot dataDir disk (Recorded fun _ _ => 0)).member i hi
    have hnolead : ¬ (newRaftNode i members (dataDir i) (disk i)).state = .leader := by
      rw [newRaftNode_state]
      decide
    refine ⟨?_, htracks, hunique, hfresh, hpeer, fun hl => absurd hl hnolead, hacked⟩
    have hsub := h.nodup.subperm fun a ha => (hconfig i hi a).mpr ha
    have hle : members.length ≤
        (newRaftNode i members (dataDir i) (disk i)).currentConfig.len := by
      simpa [AList.keys, List.keys, GoMap.len] using hsub.length_le
    exact hle

theorem CommitInv.run {members : List String} {base : ℕ} (hnd : members.Nodup)
    (hne : "" ∉ members) {s s' : Cluster} {book : VoteBook String}
    {A : Archive LogEntry String} {acc : String → ℕ → ℕ}
    (h : CommitInv members base s book A acc) (hrun : Run Cluster.step Cluster.Completing s s') :
    ∃ book' A' acc', (∀ q T, acc q T ≤ acc' q T) ∧ A.Le A' ∧
      CommitInv members base s' book' A' acc' := by
  refine hrun.invariant (P := fun t => ∃ book' A' acc', (∀ q T, acc q T ≤ acc' q T) ∧ A.Le A' ∧
    CommitInv members base t book' A' acc') ⟨book, A, acc, fun _ _ => le_rfl, .refl A, h⟩ ?_
  rintro t l u ⟨book', A', acc', hacc, hle, hinv⟩ hg hst
  obtain ⟨book'', A'', acc'', hacc', hle', hinv'⟩ := hinv.step hnd hne hg hst
  exact ⟨book'', A'', acc'', fun q T => (hacc q T).trans (hacc' q T), hle.trans hle', hinv'⟩

/-- **Leader completeness**: an entry that a leader's commit index passes is in
the log of every leader of a later term, from then on. -/
theorem leaderCompleteness {members : List String} {dataDir : String → String}
    {disk : String → Disk} (hstart : StartOk members dataDir disk)
    (hconfig : ConfigOk members dataDir disk) {s₁ s₂ s₃ : Cluster} {i j : String} {id : ℕ}
    {reply : AppendEntriesReply} {n : ℕ}
    (hrun : Run Cluster.step Cluster.Completing (Cluster.boot members dataDir disk) s₁)
    (hg : s₁.Completing (i, .appendReply id reply) s₂)
    (hst : s₁.step (i, .appendReply id reply) = some s₂)
    (hlt : (s₁.node i).commitIndex < n) (hle : n ≤ (s₂.node i).commitIndex)
    (hrun' : Run Cluster.step Cluster.Completing s₂ s₃) (hj : j ∈ members)
    (hlead : (s₃.node j).state = .leader)
    (hterm : (s₂.node i).currentTerm < (s₃.node j).currentTerm) :
    ∃ e, (s₂.node i).log.elems[n]? = some e ∧ (s₃.node j).log.elems[n]? = some e := by
  obtain ⟨base, hboot⟩ := commitInv_boot hstart hconfig
  obtain ⟨book₁, A₁, acc₁, -, -, h₁⟩ := hboot.run hstart.nodup hstart.named hrun
  obtain ⟨book₂, A₂, acc₂, -, -, h₂⟩ := h₁.step hstart.nodup hstart.named hg hst
  obtain ⟨book₃, A₃, acc₃, hacc, hA, h₃⟩ := h₂.run hstart.nodup hstart.named hrun'
  -- the step that commits: a leader with a quorum for an entry of its term
  obtain ⟨hi, -, p, out, hp, rfl⟩ := Cluster.step_inv hst
  rw [h₁.log.vote.members_eq] at hi
  obtain ⟨c, -, -, hnode⟩ := Proc.step_appendReply hp
  have hself : (s₁.put i p out).node i = (s₁.node i).handleAppendReply c reply := by
    rw [Cluster.put_node_self, hnode]
    rfl
  obtain ⟨hlead₂, hlen, hown, hquorum⟩ := handleAppendReply_commit hlt (hself ▸ hle)
  rw [← hself] at hlead₂ hlen hown hquorum
  obtain ⟨e, hget, hchosen⟩ := h₂.chosen hi (Nat.zero_lt_of_lt hlt) hlead₂ hlen hown hquorum
  refine ⟨e, hget, ?_⟩
  have hchosen₃ : Chosen members s₃ book₃ A₃ acc₃ _ n e := hchosen.mono hacc hA
  exact h₃.view.later_leader hchosen₃.1 hterm ((h₃.log.member j hj).lead hlead) hchosen₃.2

end runs

section traces

open scoped GrowthPolicy

/-- The files of three members in term 1; `b` has one entry more than the rest. -/
def threeDisks (i : String) : Disk :=
  Cluster.savedDisk ["a", "b", "c"] 1 999 (history (if i = "b" then 1000 else 999))

theorem startOk_threeDisks : StartOk ["a", "b", "c"] (fun _ => "data") threeDisks := by
  refine startOk_savedDisk (by decide) (by decide) (K := history 1000) (fun i _ => ?_)
    fun e he => (term_of_mem_history he).symm ▸ Nat.zero_le _
  split
  · exact history_prefix le_rfl
  · exact history_prefix (by decide)

theorem configOk_threeDisks : ConfigOk ["a", "b", "c"] (fun _ => "data") threeDisks := by
  intro i _ a
  unfold threeDisks
  rw [(newRaftNode_savedDisk i _ (show "data" ≠ "" by decide) 1 999 _).2.2.2]
  exact mem_keys_configOf _ a

/-- The entry `a` commits in term 2. -/
def committedEntry : LogEntry := { term := 2, index := 1000, topic := "t", data := [1] }

/-- `a` is elected by `b` in term 2, takes a command and brings it to `b`. -/
def replicateToB : List (String × Event) :=
  [("a", .electionTimeout),
    ("b", .requestVote "a" 0 (voteArgs "a" 2)),
    ("a", .voteReply 0 "b" { term := 2, voteGranted := true }),
    ("a", .submitCommand "t" 0 [1]),
    ("a", .sendAppendEntries "b"),
    ("a", .marshal 1),
    ("b", .appendEntries "a" 1 { appendArgs "a" 2 [committedEntry] with leaderCommit := 999 })]

/-- `a` learns that `b` has it, which makes a majority. -/
def commitAtA : String × Event :=
  ("a", .appendReply 1 { term := 2, success := true, lastLogIndex := 1000 })

/-- `c`, which has not seen the entry, is elected by `b` in term 3. -/
def electC : List (String × Event) :=
  [("c", .electionTimeout),
    ("c", .electionTimeout),
    ("b", .requestVote "c" 1 (voteArgs "c" 3)),
    ("c", .voteReply 1 "b" { term := 3, voteGranted := true })]

/-- `c` gets the entry as well, and is elected by `a`, which has appended
another one in the meantime. -/
def replicateToCAndElect : List (String × Event) :=
  [("a", .sendAppendEntries "c"),
    ("a", .marshal 2),
    ("c", .appendEntries "a" 2 { appendArgs "a" 2 [committedEntry] with leaderCommit := 1000 }),
    ("a", .submitCommand "t" 0 [2]),
    ("c", .electionTimeout),
    ("b", .requestVote "c" 0 { term := 3, candidateId := "c", lastLogIndex := 1000, lastLogTerm := 2 }),
    ("a", .requestVote "c" 0 { term := 3, candidateId := "c", lastLogIndex := 1000, lastLogTerm := 2 }),
    ("c", .voteReply 0 "a" { term := 3, voteGranted := true })]

theorem leaderCompleteness_threeMembers :
    ∃ s₂ s₃ : Cluster, (s₂.node "a").commitIndex = 1000 ∧ (s₃.node "c").state = .leader ∧
      ∃ e, (s₂.node "a").log.elems[1000]? = some e ∧ (s₃.node "c").log.elems[1000]? = some e := by
  obtain ⟨s₁, s₂, s₃, hrun, hg, hst, hrun', hlt, hcommit, hlead, hterm⟩ :
      ∃ s₁ s₂ s₃, Run Cluster.step Cluster.Completing
          (Cluster.boot ["a", "b", "c"] (fun _ => "data") threeDisks) s₁ ∧
        s₁.Completing commitAtA s₂ ∧ s₁.step commitAtA = some s₂ ∧
        Run Cluster.step Cluster.Completing s₂ s₃ ∧ (s₁.node "a").commitIndex < 1000 ∧
        (s₂.node "a").commitIndex = 1000 ∧ (s₃.node "c").state = .leader ∧
        (s₂.node "a").currentTerm < (s₃.node "c").currentTerm :=
    exists_step_of_execWith replicateToB commitAtA replicateToCAndElect (by decide +kernel)
  exact ⟨s₂, s₃, hcommit, hlead, leaderCompleteness startOk_threeDisks configOk_threeDisks hrun hg
    hst hlt (le_of_eq hcommit.symm) hrun' (by decide) hlead hterm⟩

/-- `b` votes for `c` because its own log is ahead, so `c` leads in term 3
without the entry that `a` has committed in term 2. -/
theorem leader_lacks_committed_entry :
    StartOk ["a", "b", "c"] (fun _ => "data") threeDisks ∧
      ConfigOk ["a", "b", "c"] (fun _ => "data") threeDisks ∧
      ∃ s₁ s₂ s₃, Run Cluster.step Cluster.Committing
          (Cluster.boot ["a", "b", "c"] (fun _ => "data") threeDisks) s₁ ∧
        s₁.Committing commitAtA s₂ ∧ s₁.step commitAtA = some s₂ ∧
        Run Cluster.step Cluster.Committing s₂ s₃ ∧ (s₁.node "a").commitIndex < 1000 ∧
        (s₂.node "a").commitIndex = 1000 ∧ (s₂.node "a").log.elems[1000]? = some committedEntry ∧
        (s₃.node "c").state = .leader ∧
        (s₂.node "a").currentTerm < (s₃.node "c").currentTerm ∧
        (s₃.node "c").log.elems[1000]? = none :=
  ⟨startOk_threeDisks, configOk_threeDisks,
    exists_step_of_execWith replicateToB commitAtA electC (by decide +kernel)⟩

end traces

end DistributedMQ.Raft
