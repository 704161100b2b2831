import DistributedMQ.Lib.Majority
import DistributedMQ.Raft.Static

/-!
# Election safety

Votes are counted in closures that outlive the term they were started in, while
the votes themselves live in the voters' `votedFor`, on disk and in memory. The
two are tied together by a ghost `VoteBook`: who has voted for whom in which
term, over the whole run.

- `VoteInv members s book`: every entry of the book is still backed by its
  voter, every vote request on the wire is its candidate's, every granted reply
  on the wire and every counted vote is in the book, and so is a majority for
  every leader.
- `VoteInv.update`: the invariant survives a step of one member that meets
  local conditions; `VoteInv.step` discharges them for each `ElectionEffect`.
- `leader_unique`: at most one member ever leads in a term. The one way around
  it is `currentTerm++` at the largest `uint64`, which brings old terms back
  (`two_leaders_after_wrap`).
-/

namespace DistributedMQ.Raft

open RaftNode Machine

/-! ## The handlers that vote -/

namespace RaftNode

/-- The vote is granted: the voter is in the candidate's term, was free to vote
for it, and has saved its choice. -/
structure Grant (r : RaftNode) (args : RequestVoteArgs) (r' : RaftNode) : Prop where
  term : r'.currentTerm = args.term
  vote : r'.votedFor = args.candidateId
  term_le : r.currentTerm ≤ args.term
  free : r.currentTerm = args.term → r.votedFor = "" ∨ r.votedFor = args.candidateId
  state : (r'.state = r.state ∧ r.currentTerm = args.term) ∨
    (r'.state = .follower ∧ r.currentTerm < args.term)
  selfAddr : r'.selfAddr = r.selfAddr
  dataDir : r'.dataDir = r.dataDir
  durable : r'.dataDir ≠ "" → Durable r'

theorem requestVote_cases (r : RaftNode) (args : RequestVoteArgs) :
    ((r.requestVote args).2.voteGranted = false ∧ Calm r (r.requestVote args).1) ∨
      ((r.requestVote args).2.voteGranted = true ∧ Grant r args (r.requestVote args).1) := by
  unfold requestVote
  by_cases hstale : args.term < r.currentTerm
  · rw [if_pos hstale]
    exact Or.inl ⟨rfl, .refl r⟩
  rw [if_neg hstale]
  have hle : r.currentTerm ≤ args.term := not_lt.mp hstale
  dsimp only
  by_cases hg : (r.observeTerm args.term).grants args = true
  · rw [if_pos hg]
    refine Or.inr ⟨rfl, ?_⟩
    have hvote : (r.observeTerm args.term).votedFor = "" ∨
        (r.observeTerm args.term).votedFor = args.candidateId := by
      unfold grants at hg
      simpa using (Bool.and_eq_true_iff.mp hg).1
    unfold observeTerm at hvote ⊢
    by_cases hnew : args.term > r.currentTerm
    -- a newer term: the old vote is forgotten
    · simp only [if_pos hnew] at hvote ⊢
      exact ⟨by simp [becomeFollower, closePending], by simp, hle,
        fun heq => absurd heq (ne_of_lt hnew),
        Or.inr ⟨by simp [becomeFollower, closePending], hnew⟩,
        by simp [becomeFollower, closePending], by simp [becomeFollower, closePending],
        fun hd => durable_saveState (by simpa using hd)⟩
    -- the same term: the vote was free, or this candidate's already
    · simp only [if_neg hnew] at hvote ⊢
      have heq : r.currentTerm = args.term := le_antisymm hle (not_lt.mp hnew)
      exact ⟨by simpa using heq, by simp, hle, fun _ => hvote, Or.inl ⟨by simp, heq⟩, by simp,
        by simp, fun hd => durable_saveState (by simpa using hd)⟩
  · rw [if_neg hg]
    exact Or.inl ⟨rfl, calm_observeTerm r args.term⟩

/-- The vote counts: the candidate is still in the election's term. -/
structure Counts (r : RaftNode) (e : Election) (reply : RequestVoteReply) : Prop where
  state : r.state = .candidate
  term : r.currentTerm = e.term
  granted : reply.voteGranted = true

theorem handleVoteReply_cases (r : RaftNode) (e : Election) (peer : String)
    (reply : RequestVoteReply) :
    (Calm r (r.handleVoteReply e peer reply).1 ∧
        (r.handleVoteReply e peer reply).2 = { e with waiting := e.waiting.erase peer }) ∨
      (Counts r e reply ∧
        (r.handleVoteReply e peer reply).2 =
          Election.count { e with waiting := e.waiting.erase peer } r peer ∧
        ((r.handleVoteReply e peer reply).1 = r ∨
          (r.handleVoteReply e peer reply).1 = r.becomeLeader ∧
            (Election.count { e with waiting := e.waiting.erase peer } r peer).won = true)) := by
  unfold handleVoteReply
  dsimp only
  split
  · exact Or.inl ⟨calm_becomeFollower ‹_›, rfl⟩
  split
  · rename_i hc
    refine Or.inr ⟨⟨hc.1, hc.2.1, hc.2.2⟩, ?_⟩
    split
    · rename_i hwon
      exact ⟨rfl, Or.inr ⟨rfl, hwon⟩⟩
    · exact ⟨rfl, Or.inl rfl⟩
  · exact Or.inl ⟨.refl r, rfl⟩

/-- A campaigning node: the next term, its own vote, saved. -/
theorem startElection_spec (r : RaftNode) (id : ℕ) :
    (r.startElection id).1.currentTerm = inc64 r.currentTerm ∧
      (r.startElection id).1.votedFor = r.selfAddr ∧
      (r.startElection id).1.selfAddr = r.selfAddr ∧
      (r.startElection id).1.dataDir = r.dataDir ∧
      ((r.startElection id).1.dataDir ≠ "" → Durable (r.startElection id).1) ∧
      ((r.startElection id).1.state = .leader → r.peers.keys = []) ∧
      ∀ e ∈ (r.startElection id).2, e = r.campaign.newElection id := by
  unfold startElection
  split
  · rename_i hp
    refine ⟨by simp [becomeLeader, closePending, campaign],
      by simp [becomeLeader, closePending, campaign],
      by simp [becomeLeader, closePending, campaign],
      by simp [becomeLeader, closePending, campaign],
      fun hd => durable_saveState (by simpa using hd), fun _ => hp, by simp⟩
  · refine ⟨by simp [campaign], by simp [campaign], by simp [campaign], by simp [campaign],
      fun hd => durable_saveState (by simpa using hd), by simp [campaign], by simp⟩

end RaftNode

/-- The process after `startElection`: the node has campaigned and at most the
new election has been added, with its requests on the wire. -/
theorem Proc.startElection_spec {p p' : Proc} {out : List Message}
    (h : p.startElection = (p', out)) :
    p'.node = (p.node.startElection p.nextId).1 ∧ p'.peerList = p.peerList ∧
      p'.nextId = p.nextId + 1 ∧
      (∀ e ∈ p'.elections, e ∈ p.elections ∨ e = p.node.campaign.newElection p.nextId) ∧
      ∀ m ∈ out, ∃ peer, m = .voteRequest p.node.selfAddr p.nextId peer
        (p.node.campaign.newElection p.nextId).args := by
  obtain ⟨-, -, hself, -, -, -, hel⟩ := p.node.startElection_spec p.nextId
  unfold startElection at h
  rcases hs : p.node.startElection p.nextId with ⟨r, _ | e⟩
  · rw [hs] at h
    obtain ⟨rfl, rfl⟩ := Prod.mk.inj h
    exact ⟨rfl, rfl, rfl, fun e he => Or.inl he, by simp⟩
  · rw [hs] at h hel hself
    obtain ⟨rfl, rfl⟩ := Prod.mk.inj h
    obtain rfl := hel e rfl
    refine ⟨rfl, rfl, rfl, fun e he => ?_, fun m hm => ?_⟩
    · rcases List.mem_append.mp he with he | he
      · exact Or.inl he
      · exact Or.inr (List.mem_singleton.mp he)
    · obtain ⟨peer, -, rfl⟩ := List.mem_map.mp hm
      exact ⟨peer, by rw [show r.selfAddr = p.node.selfAddr from hself]; rfl⟩

/-- A vote request is sent by a candidate in its new term. -/
theorem ElectionEffect.voteRequest_term [GrowthPolicy] {p p' : Proc} {ev : Event}
    {out : List Message} (h : ElectionEffect p ev p' out) {c : String} {id : ℕ} {peer : String}
    {args : RequestVoteArgs} (hm : Message.voteRequest c id peer args ∈ out) :
    c = p.node.selfAddr ∧ args.term = p'.node.currentTerm := by
  cases h with
  | calm _ _ _ _ hout => exact (hout _ hm).elim
  | campaign es _ _ _ =>
    obtain ⟨hnode, -, -, -, hout⟩ := @Proc.startElection_spec { p with elections := es }
      (Proc.startElection _).1 (Proc.startElection _).2 rfl
    obtain ⟨peer', heq⟩ := hout _ hm
    injection heq with hc _ _ hargs
    refine ⟨hc, ?_⟩
    rw [hargs, hnode, (p.node.startElection_spec _).1]
    rfl
  | ballot => simp at hm
  | tally => simp at hm
  | reboot => simp at hm

/-! ## The invariant -/

/-- The closure of an election of member `i` counts votes that are in the book. -/
structure ElectionOk (members : List String) (book : VoteBook String) (i : String)
    (e : Election) : Prop where
  stable : e.configState = .stable
  own : book i e.term = some i
  voters : e.nonLearnerPeers.length + 1 = members.length
  waiting_nodup : e.waiting.Nodup
  waiting_sub : ∀ p ∈ e.waiting, p ∈ members ∧ p ≠ i
  tally : ∃ Q : List String, Q.Nodup ∧ Q ⊆ members ∧ i ∉ Q ∧ (∀ p ∈ Q, p ∉ e.waiting) ∧
    e.votes = Q.length + 1 ∧ ∀ p ∈ Q, book p e.term = some i

/-- The node stands by the member's entries in the book: they are of earlier
terms or its current vote. -/
def Backs (book : VoteBook String) (i : String) (r : RaftNode) : Prop :=
  ∀ t c, book i t = some c →
    c ≠ "" ∧ (t < r.currentTerm ∨ t = r.currentTerm ∧ r.votedFor = c)

/-- What the book has to do with one member. -/
structure MemberOk (members : List String) (book : VoteBook String) (i : String) (p : Proc) :
    Prop where
  self : p.node.selfAddr = i
  peerList : p.peerList = members
  settled : Settled members p.node
  durable : p.node.dataDir ≠ "" → Durable p.node
  booked : Backs book i p.node
  tally : ∀ e ∈ p.elections, ElectionOk members book i e ∧ e.id < p.nextId
  leader : p.node.state = .leader → book.Won members p.node.currentTerm i

/-- The ghost book accounts for everything about votes in the cluster. -/
structure VoteInv (members : List String) (s : Cluster) (book : VoteBook String) : Prop where
  members_eq : s.members = members
  member : ∀ i ∈ members, MemberOk members book i (s.procs i)
  request : ∀ c id peer args, Message.voteRequest c id peer args ∈ s.net →
    c ∈ members ∧ args.candidateId = c ∧ id < (s.procs c).nextId ∧
      ∀ e ∈ (s.procs c).elections, e.id = id → e.term = args.term
  granted : ∀ c id peer reply, Message.voteReply c id peer reply ∈ s.net →
    reply.voteGranted = true →
      ∃ args, Message.voteRequest c id peer args ∈ s.net ∧ book peer args.term = some c

theorem ElectionOk.mono {members : List String} {book book' : VoteBook String} {i : String}
    {e : Election} (h : ElectionOk members book i e) (hext : book.Extends book') :
    ElectionOk members book' i e := by
  obtain ⟨Q, hnd, hsub, hi, hw, hv, hQ⟩ := h.tally
  exact ⟨h.stable, hext _ _ _ h.own, h.voters, h.waiting_nodup, h.waiting_sub,
    Q, hnd, hsub, hi, hw, hv, fun p hp => hext _ _ _ (hQ p hp)⟩

/-- A member whose own votes are the same does not mind a larger book. -/
theorem MemberOk.mono {members : List String} {book book' : VoteBook String} {i : String}
    {p : Proc} (h : MemberOk members book i p) (hext : book.Extends book')
    (hown : ∀ t, book' i t = book i t) : MemberOk members book' i p where
  self := h.self
  peerList := h.peerList
  settled := h.settled
  durable := h.durable
  booked t c hc := h.booked t c (hown t ▸ hc)
  tally e he := ⟨(h.tally e he).1.mono hext, (h.tally e he).2⟩
  leader hl := hext.won (h.leader hl)

/-- The votes a step may cast: a candidate's own, and one that is granted. -/
inductive Cast (s : Cluster) (l : String × Event) (v : String) (t : ℕ) (c : String) : Prop where
  | own (hv : v = l.1) (hev : l.2.campaigns (s.procs v) = true) (ht : t = (s.node v).currentTerm + 1)
      (hc : c = v)
  | granted (caller : String) (id : ℕ) (args : RequestVoteArgs)
      (hl : l = (v, .requestVote caller id args))
      (hg : ((s.node v).requestVote args).2.voteGranted = true) (ht : t = args.term)
      (hc : c = args.candidateId)

/-- The book grows by votes cast in the step. -/
structure BookStep (s : Cluster) (l : String × Event) (book book' : VoteBook String) : Prop where
  grows : book.Extends book'
  cast : ∀ v t c, book' v t = some c → book v t = some c ∨ Cast s l v t c

theorem BookStep.refl (s : Cluster) (l : String × Event) (book : VoteBook String) :
    BookStep s l book book :=
  ⟨.refl _, fun _ _ _ h => Or.inl h⟩

theorem BookStep.enter {s : Cluster} {l : String × Event} {book : VoteBook String} {v : String}
    {t : ℕ} {c : String} (hext : book.Extends (book.enter v t c)) (hcast : Cast s l v t c) :
    BookStep s l book (book.enter v t c) := by
  refine ⟨hext, fun v' t' c' h => ?_⟩
  rcases VoteBook.of_enter h with ⟨rfl, rfl, rfl⟩ | h
  · exact Or.inr hcast
  · exact Or.inl h

/-- A step of member `i` keeps the invariant if its own part holds afterwards,
its running elections keep their terms, and what it puts on the wire is backed
by its elections or by the book. -/
theorem VoteInv.update {members : List String} {s : Cluster} {book book' : VoteBook String}
    (h : VoteInv members s book) {i : String} (hi : i ∈ members) {p : Proc} {out : List Message}
    (hext : book.Extends book') (hothers : ∀ v t, v ≠ i → book' v t = book v t)
    (hp : MemberOk members book' i p) (hnext : (s.procs i).nextId ≤ p.nextId)
    (hids : ∀ e ∈ p.elections, e.id < (s.procs i).nextId →
      ∃ e₀ ∈ (s.procs i).elections, e₀.id = e.id ∧ e₀.term = e.term)
    (hreq : ∀ c id peer args, Message.voteRequest c id peer args ∈ out →
      c = i ∧ args.candidateId = i ∧ id < p.nextId ∧
        ∀ e ∈ p.elections, e.id = id → e.term = args.term)
    (hrep : ∀ c id peer reply, Message.voteReply c id peer reply ∈ out →
      reply.voteGranted = true →
        ∃ args, Message.voteRequest c id peer args ∈ s.net ∧ book' peer args.term = some c) :
    VoteInv members (s.put i p out) book' where
  members_eq := h.members_eq
  member := s.forall_put (P := fun j q => j ∈ members → MemberOk members book' j q) i p out
    (fun _ => hp) fun j hji hj => (h.member j hj).mono hext fun t => hothers j t hji
  request c id peer args hm := by
    rcases List.mem_append.mp hm with hm | hm
    · obtain ⟨hc, hcand, hid, hterm⟩ := h.request c id peer args hm
      refine ⟨hc, hcand, ?_⟩
      by_cases hci : c = i
      · -- the call is an older one of the member that steps
        subst hci
        rw [Cluster.put_procs_self]
        refine ⟨lt_of_lt_of_le hid hnext, fun e he heid => ?_⟩
        obtain ⟨e₀, he₀, hid₀, hterm₀⟩ := hids e he (heid ▸ hid)
        rw [← hterm₀]
        exact hterm e₀ he₀ (hid₀.trans heid)
      · rw [Cluster.put_procs_ne _ _ _ _ hci]
        exact ⟨hid, hterm⟩
    · obtain ⟨rfl, hcand, hid, hterm⟩ := hreq c id peer args hm
      rw [Cluster.put_procs_self]
      exact ⟨hi, hcand, hid, hterm⟩
  granted c id peer reply hm hg := by
    rcases List.mem_append.mp hm with hm | hm
    · obtain ⟨args, hargs, hbook⟩ := h.granted c id peer reply hm hg
      exact ⟨args, List.mem_append_left _ hargs, hext _ _ _ hbook⟩
    · obtain ⟨args, hargs, hbook⟩ := hrep c id peer reply hm hg
      exact ⟨args, List.mem_append_left _ hargs, hbook⟩

/-! ## Each effect keeps the invariant -/

section effects

variable {members : List String} {s : Cluster} {book : VoteBook String} {i : String}

theorem Backs.calm {r r' : RaftNode} (h : Backs book i r) (hcalm : Calm r r') :
    Backs book i r' := by
  intro t c hc
  obtain ⟨hne, hback⟩ := h t c hc
  refine ⟨hne, ?_⟩
  cases hcalm.move with
  | stay _ hterm hvote => rwa [hterm, hvote]
  | down _ hterm _ =>
    rcases hback with hlt | ⟨rfl, -⟩
    · exact Or.inl (hlt.trans hterm)
    · exact Or.inl hterm

/-- The node may keep its vote or step down, and forget elections. -/
theorem MemberOk.calm {p p' : Proc} (h : MemberOk members book i p)
    (hnode : Calm p.node p'.node) (hsame : SameMembership p.node p'.node)
    (hel : p'.elections ⊆ p.elections) (hid : p.nextId ≤ p'.nextId)
    (hlist : p'.peerList = p.peerList) : MemberOk members book i p' where
  self := hnode.selfAddr.trans h.self
  peerList := hlist.trans h.peerList
  settled := h.settled.of_same hsame hnode.selfAddr
  durable hd := by
    have hd' : p.node.dataDir ≠ "" := hnode.dataDir ▸ hd
    exact hnode.durable hd' (h.durable hd')
  booked := h.booked.calm hnode
  tally e he := ⟨(h.tally e (hel he)).1, lt_of_lt_of_le (h.tally e (hel he)).2 hid⟩
  leader hl := by
    cases hnode.move with
    | stay hstate hterm _ =>
      rw [hterm]
      exact h.leader (hstate ▸ hl)
    | down hstate _ _ =>
      rw [hstate] at hl
      cases hl

theorem VoteInv.calm (h : VoteInv members s book) (hi : i ∈ members) {p : Proc}
    {out : List Message} (hnode : Calm (s.node i) p.node)
    (hsame : SameMembership (s.node i) p.node) (hel : p.elections ⊆ (s.procs i).elections)
    (hid : (s.procs i).nextId ≤ p.nextId) (hlist : p.peerList = (s.procs i).peerList)
    (hout : ∀ m ∈ out, m.NoBallot) :
    VoteInv members (s.put i p out) book := by
  refine h.update hi (.refl _) (fun _ _ _ => rfl) ((h.member i hi).calm hnode hsame hel hid hlist)
    hid (fun e he _ => ⟨e, hel he, rfl, rfl⟩) ?_ ?_
  · intro c id peer args hm
    exact (hout _ hm).elim
  · intro c id peer reply hm hg
    have hno : reply.voteGranted = false := hout _ hm
    rw [hno] at hg
    cases hg

/-- An election starts with the candidate's own vote and waits for all others. -/
theorem MemberOk.electionOk_new (hnd : members.Nodup) {p : Proc} (h : MemberOk members book i p)
    {book' : VoteBook String} (hown : book' i (inc64 p.node.currentTerm) = some i) :
    ElectionOk members book' i (p.node.campaign.newElection p.nextId) := by
  have hvoters : p.node.campaign.nonLearnerPeers = p.node.peers.keys :=
    h.settled.nonLearnerPeers_eq
  refine ⟨h.settled.stable, hown, ?_, ?_, fun q hq => ?_, [], by simp, by simp, by simp,
    by simp, rfl, by simp⟩
  · show p.node.campaign.nonLearnerPeers.length + 1 = members.length
    rw [hvoters]
    exact h.settled.length_peers hnd
  · show p.node.campaign.nonLearnerPeers.Nodup
    rw [hvoters]
    exact p.node.peers.keys_nodup
  · have hq' : q ∈ p.node.peers.keys := hvoters ▸ hq
    have hmem := (h.settled.mem_peers q).mp hq'
    rwa [h.self] at hmem

/-- The next term is beyond every term the member has voted in. -/
theorem MemberOk.booked_lt {p : Proc} (h : MemberOk members book i p) {t : ℕ} {c : String}
    (hc : book i t = some c) : t < p.node.currentTerm + 1 := by
  rcases (h.booked t c hc).2 with hlt | ⟨rfl, -⟩
  · exact Nat.lt_succ_of_lt hlt
  · exact Nat.lt_succ_self _

/-- A candidate has entered its own vote for the new term. -/
theorem MemberOk.campaign (hnd : members.Nodup) (hne : "" ∉ members) {p p' : Proc}
    {out : List Message} (h : MemberOk members book i p) (hi : i ∈ members)
    (hwrap : p.node.currentTerm + 1 < size64) (hp : p.startElection = (p', out))
    (hsame : SameMembership p.node p'.node)
    (hext : book.Extends (book.enter i (p.node.currentTerm + 1) i)) :
    MemberOk members (book.enter i (p.node.currentTerm + 1) i) i p' := by
  obtain ⟨hnode, hlist, hnext, helections, -⟩ := Proc.startElection_spec hp
  obtain ⟨hterm, hvote, hself, -, hdur, hlead, -⟩ := p.node.startElection_spec p.nextId
  have hinc : p'.node.currentTerm = p.node.currentTerm + 1 := by
    rw [hnode, hterm, inc64_of_lt hwrap]
  have hown : book.enter i (p.node.currentTerm + 1) i i (p.node.currentTerm + 1) = some i :=
    book.enter_self i _ i
  constructor
  · rw [hnode, hself, h.self]
  · exact hlist.trans h.peerList
  · exact h.settled.of_same hsame (by rw [hnode, hself])
  · rw [hnode]
    exact hdur
  · intro t c hc
    rw [hinc]
    rcases VoteBook.of_enter hc with ⟨-, rfl, rfl⟩ | hc
    · refine ⟨fun hempty => hne (hempty ▸ hi), Or.inr ⟨rfl, ?_⟩⟩
      rw [hnode, hvote, h.self]
    · exact ⟨(h.booked t c hc).1, Or.inl (h.booked_lt hc)⟩
  · intro e he
    rw [hnext]
    rcases helections e he with he | rfl
    · obtain ⟨heok, heid⟩ := h.tally e he
      exact ⟨heok.mono hext, Nat.lt_succ_of_lt heid⟩
    · exact ⟨h.electionOk_new hnd (by rw [inc64_of_lt hwrap]; exact hown), Nat.lt_succ_self _⟩
  · intro hl
    -- only a node without peers leads at once, and then it is the only member
    have hnil : p.node.peers.keys = [] := hlead (hnode ▸ hl)
    have hlen := h.settled.length_peers hnd
    rw [hnil] at hlen
    refine ⟨[i], by simp, by simpa using hi, ?_, fun v hv => ?_⟩
    · simp only [List.length_nil, List.length_singleton] at hlen ⊢
      omega
    · rw [List.mem_singleton.mp hv, hinc]
      exact hown

theorem VoteInv.campaign (hnd : members.Nodup) (hne : "" ∉ members) (h : VoteInv members s book)
    (hi : i ∈ members) {ev : Event} (hev : ev.campaigns (s.procs i) = true) {es : List Election}
    (hsub : es ⊆ (s.procs i).elections) (hwrap : (s.node i).currentTerm + 1 < size64)
    {p : Proc} {out : List Message}
    (hp : { s.procs i with elections := es }.startElection = (p, out))
    (hsame : SameMembership (s.node i) p.node) :
    ∃ book', BookStep s (i, ev) book book' ∧
      VoteInv members (s.put i p out) book' := by
  have hok : MemberOk members book i { s.procs i with elections := es } :=
    (h.member i hi).calm (.refl _) ⟨rfl, rfl, rfl, rfl⟩ hsub le_rfl rfl
  have hext : book.Extends (book.enter i ((s.node i).currentTerm + 1) i) :=
    VoteBook.extends_enter fun c hc => absurd (hok.booked_lt hc) (lt_irrefl _)
  obtain ⟨-, -, hnext, helections, hout⟩ := Proc.startElection_spec hp
  refine ⟨_, .enter hext (.own rfl hev rfl rfl),
    h.update hi hext (fun v t hv => book.enter_of_ne hv _ t _)
    (hok.campaign hnd hne hi hwrap hp hsame hext) (hnext ▸ Nat.le_succ _) (fun e he hlt => ?_)
    (fun c id peer args hm => ?_) (fun c id peer reply hm => ?_)⟩
  · rcases helections e he with he | rfl
    · exact ⟨e, hsub he, rfl, rfl⟩
    · exact absurd hlt (lt_irrefl _)
  · obtain ⟨peer', heq⟩ := hout _ hm
    injection heq with hc hid _ hargs
    subst hc hid hargs
    refine ⟨hok.self, hok.self, hnext ▸ Nat.lt_succ_self _, fun e he heid => ?_⟩
    rcases helections e he with he | rfl
    · exact absurd (hok.tally e he).2 (by rw [heid]; exact lt_irrefl _)
    · rfl
  · obtain ⟨peer', heq⟩ := hout _ hm
    cases heq

/-- A voter that grants its vote enters it. -/
theorem MemberOk.grant {p : Proc} {args : RequestVoteArgs} {r : RaftNode}
    (h : MemberOk members book i p) (hg : Grant p.node args r)
    (hsame : SameMembership p.node r) (hcand : args.candidateId ≠ "")
    (hext : book.Extends (book.enter i args.term args.candidateId)) :
    MemberOk members (book.enter i args.term args.candidateId) i { p with node := r } where
  self := hg.selfAddr.trans h.self
  peerList := h.peerList
  settled := h.settled.of_same hsame hg.selfAddr
  durable := hg.durable
  booked t c hc := by
    show c ≠ "" ∧ (t < r.currentTerm ∨ t = r.currentTerm ∧ r.votedFor = c)
    rw [hg.term, hg.vote]
    rcases VoteBook.of_enter hc with ⟨-, rfl, rfl⟩ | hc
    · exact ⟨hcand, Or.inr ⟨rfl, rfl⟩⟩
    · obtain ⟨hne, hback⟩ := h.booked t c hc
      refine ⟨hne, ?_⟩
      rcases lt_or_eq_of_le (hback.elim le_of_lt fun hb => le_of_eq hb.1) with hlt | heq
      · exact Or.inl (lt_of_lt_of_le hlt hg.term_le)
      · rcases lt_or_eq_of_le hg.term_le with hlt | hterm
        · exact Or.inl (heq ▸ hlt)
        · -- an earlier vote in this very term: the voter was only free for its candidate
          have hvoted : p.node.votedFor = c := by
            rcases hback with hlt | ⟨-, hv⟩
            · exact absurd heq (ne_of_lt hlt)
            · exact hv
          rcases hg.free hterm with hfree | hfree
          · exact absurd (hvoted.symm.trans hfree) hne
          · exact Or.inr ⟨heq.trans hterm, hfree.symm.trans hvoted⟩
  tally e he := ⟨(h.tally e he).1.mono hext, (h.tally e he).2⟩
  leader hl := by
    rcases hg.state with ⟨hstate, hterm⟩ | ⟨hstate, -⟩
    · have hwon := hext.won (h.leader (hstate ▸ hl))
      rw [hterm, ← hg.term] at hwon
      exact hg.term ▸ hwon
    · exact absurd (hstate.symm.trans hl) (by decide)

/-- A free voter has no other vote in the book. -/
theorem MemberOk.extends_grant {p : Proc} {args : RequestVoteArgs} {r : RaftNode}
    (h : MemberOk members book i p) (hg : Grant p.node args r) :
    book.Extends (book.enter i args.term args.candidateId) := by
  refine VoteBook.extends_enter fun c hc => ?_
  obtain ⟨hne, hlt | ⟨heq, hv⟩⟩ := h.booked _ c hc
  · exact absurd hg.term_le (not_le.mpr hlt)
  · rcases hg.free heq.symm with hfree | hfree
    · exact absurd (hv.symm.trans hfree) hne
    · exact hv.symm.trans hfree

theorem VoteInv.ballot (hne : "" ∉ members) (h : VoteInv members s book) (hi : i ∈ members)
    {caller : String} {id : ℕ} {args : RequestVoteArgs}
    (hmsg : Message.voteRequest caller id i args ∈ s.net)
    (hsame : SameMembership (s.node i) ((s.node i).requestVote args).1) :
    ∃ book', BookStep s (i, .requestVote caller id args) book book' ∧
      VoteInv members
        (s.put i { s.procs i with node := ((s.node i).requestVote args).1 }
          [.voteReply caller id (s.node i).selfAddr ((s.node i).requestVote args).2]) book' := by
  have hok := h.member i hi
  rcases (s.node i).requestVote_cases args with ⟨hno, hcalm⟩ | ⟨hyes, hg⟩
  · refine ⟨book, .refl _ _ _, h.calm hi hcalm hsame (fun _ he => he) le_rfl rfl fun m hm => ?_⟩
    rw [List.mem_singleton.mp hm]
    exact hno
  · obtain ⟨hcaller, hcand, -, -⟩ := h.request caller id i args hmsg
    have hcne : args.candidateId ≠ "" := fun hempty => hne (hempty ▸ hcand ▸ hcaller)
    have hext := hok.extends_grant hg
    refine ⟨_, .enter hext (.granted caller id args rfl hyes rfl rfl),
      h.update hi hext (fun v t hv => book.enter_of_ne hv _ t _) (hok.grant hg hsame hcne hext)
        le_rfl (fun e he _ => ⟨e, he, rfl, rfl⟩) (by simp) fun c id' peer reply hm _ => ?_⟩
    injection List.mem_singleton.mp hm with hc hid' hpeer _
    subst hc hid' hpeer
    rw [show (s.node i).selfAddr = i from hok.self]
    exact ⟨args, hmsg, by rw [← hcand]; exact book.enter_self i _ _⟩

/-- The goroutine of a peer is done without a vote. -/
theorem ElectionOk.erase {e : Election} (h : ElectionOk members book i e) (peer : String) :
    ElectionOk members book i { e with waiting := e.waiting.erase peer } := by
  obtain ⟨Q, hnd, hsub, hi, hw, hv, hQ⟩ := h.tally
  exact ⟨h.stable, h.own, h.voters, h.waiting_nodup.erase _,
    fun p hp => h.waiting_sub p (List.mem_of_mem_erase hp),
    Q, hnd, hsub, hi, fun p hp hmem => hw p hp (List.mem_of_mem_erase hmem), hv, hQ⟩

/-- The vote of a waiting peer is counted, and it is the peer's first. -/
theorem ElectionOk.count {e : Election} (h : ElectionOk members book i e) {peer : String}
    (hpeer : peer ∈ e.waiting) (hbook : book peer e.term = some i) (r : RaftNode) :
    ElectionOk members book i
      (Election.count { e with waiting := e.waiting.erase peer } r peer) := by
  obtain ⟨Q, hnd, hsub, hi, hw, hv, hQ⟩ := h.tally
  obtain ⟨hmem, hpi⟩ := h.waiting_sub peer hpeer
  refine ⟨h.stable, h.own, h.voters, h.waiting_nodup.erase _,
    fun p hp => h.waiting_sub p (List.mem_of_mem_erase hp), peer :: Q,
    List.nodup_cons.mpr ⟨fun hQp => hw peer hQp hpeer, hnd⟩,
    List.cons_subset.mpr ⟨hmem, hsub⟩, ?_, ?_, by simp [Election.count, hv], ?_⟩
  · rintro (_ | ⟨_, hiQ⟩)
    · exact hpi rfl
    · exact hi hiQ
  · rintro p (_ | ⟨_, hp⟩) hmem'
    · exact (h.waiting_nodup.not_mem_erase) hmem'
    · exact hw p hp (List.mem_of_mem_erase hmem')
  · rintro p (_ | ⟨_, hp⟩)
    · exact hbook
    · exact hQ p hp

/-- A tally over half of the members is a majority of the book. -/
theorem ElectionOk.won {e : Election} (h : ElectionOk members book i e) (hi : i ∈ members)
    (hwon : e.won = true) : book.Won members e.term i := by
  obtain ⟨Q, hnd, hsub, hiQ, -, hv, hQ⟩ := h.tally
  have hvotes : e.votes > (e.nonLearnerPeers.length + 1) / 2 := by
    unfold Election.won at hwon
    rw [h.stable] at hwon
    simpa using hwon
  rw [h.voters, hv] at hvotes
  refine ⟨i :: Q, List.nodup_cons.mpr ⟨hiQ, hnd⟩, List.cons_subset.mpr ⟨hi, hsub⟩, ?_, ?_⟩
  · rw [List.length_cons]
    omega
  · rintro v (_ | ⟨_, hv⟩)
    · exact h.own
    · exact hQ v hv

theorem mem_setElection {es : List Election} {e e' : Election}
    (h : e' ∈ Proc.setElection es e) : e' = e ∧ (∃ e₀ ∈ es, e₀.id = e.id) ∨ e' ∈ es := by
  obtain ⟨e₀, he₀, rfl⟩ := List.mem_map.mp h
  by_cases hid : e₀.id = e.id
  · rw [if_pos hid]
    exact Or.inl ⟨rfl, e₀, he₀, hid⟩
  · rw [if_neg hid]
    exact Or.inr he₀

/-- The closure after a reply is the old one with another tally. -/
theorem handleVoteReply_election (r : RaftNode) (e : Election) (peer : String)
    (reply : RequestVoteReply) :
    (r.handleVoteReply e peer reply).2.id = e.id ∧
      (r.handleVoteReply e peer reply).2.term = e.term := by
  rcases r.handleVoteReply_cases e peer reply with ⟨-, he⟩ | ⟨-, he, -⟩
  · rw [he]
    exact ⟨rfl, rfl⟩
  · rw [he]
    exact ⟨rfl, rfl⟩

/-- A vote goroutine counts a vote that is in the book. -/
theorem MemberOk.tally_reply {p : Proc} {e : Election} {peer : String}
    {reply : RequestVoteReply} (h : MemberOk members book i p) (hi : i ∈ members)
    (he : e ∈ p.elections) (hpeer : peer ∈ e.waiting)
    (hbook : reply.voteGranted = true → book peer e.term = some i)
    (hsame : SameMembership p.node (p.onVoteReply e peer reply).node) :
    MemberOk members book i (p.onVoteReply e peer reply) := by
  obtain ⟨heok, heid⟩ := h.tally e he
  -- the closures, once the one of this election is known to be in order
  have htally : ElectionOk members book i (p.node.handleVoteReply e peer reply).2 →
      ∀ e' ∈ (p.onVoteReply e peer reply).elections,
        ElectionOk members book i e' ∧ e'.id < p.nextId := by
    intro hok e' he'
    rcases mem_setElection he' with ⟨rfl, -⟩ | he'
    · refine ⟨hok, ?_⟩
      rw [(handleVoteReply_election p.node e peer reply).1]
      exact heid
    · exact h.tally e' he'
  rcases p.node.handleVoteReply_cases e peer reply with ⟨hcalm, hel⟩ | ⟨hc, hel, hnode⟩
  · have hok : MemberOk members book i
        { p with node := (p.node.handleVoteReply e peer reply).1 } :=
      h.calm hcalm hsame (fun _ he => he) le_rfl rfl
    exact { hok with tally := htally (hel ▸ heok.erase peer) }
  · have hcount := heok.count hpeer (hbook hc.granted) p.node
    rcases hnode with hnode | ⟨hnode, hwon⟩
    · have hok : MemberOk members book i
          { p with node := (p.node.handleVoteReply e peer reply).1 } :=
        h.calm (by rw [hnode]; exact .refl _) hsame (fun _ he => he) le_rfl rfl
      exact { hok with tally := htally (hel ▸ hcount) }
    · -- the node leads: the tally is its majority
      have hnode' : (p.onVoteReply e peer reply).node = p.node.becomeLeader := hnode
      constructor
      case tally => exact htally (hel ▸ hcount)
      case leader =>
        intro _
        have hterm : (p.onVoteReply e peer reply).node.currentTerm = e.term := by
          rw [hnode']
          exact hc.term
        rw [hterm]
        exact hcount.won hi hwon
      case settled => exact h.settled.of_same hsame (by rw [hnode']; rfl)
      case peerList => exact h.peerList
      all_goals rw [hnode']
      case self => exact h.self
      case durable => exact h.durable
      case booked => exact h.booked

theorem VoteInv.tally_reply (h : VoteInv members s book) (hi : i ∈ members) {e : Election}
    {peer : String} {reply : RequestVoteReply} (he : e ∈ (s.procs i).elections)
    (hpeer : peer ∈ e.waiting) (hmsg : Message.voteReply i e.id peer reply ∈ s.net)
    (hsame : SameMembership (s.node i) ((s.procs i).onVoteReply e peer reply).node) :
    VoteInv members (s.put i ((s.procs i).onVoteReply e peer reply) []) book := by
  have hbook : reply.voteGranted = true → book peer e.term = some i := by
    intro hg
    obtain ⟨args, hargs, hb⟩ := h.granted i e.id peer reply hmsg hg
    rwa [(h.request i e.id peer args hargs).2.2.2 e he rfl]
  refine h.update hi (.refl _) (fun _ _ _ => rfl)
    ((h.member i hi).tally_reply hi he hpeer hbook hsame) le_rfl (fun e' he' _ => ?_)
    (by simp) (by simp)
  rcases mem_setElection he' with ⟨rfl, -⟩ | he'
  · obtain ⟨hid, hterm⟩ := handleVoteReply_election (s.procs i).node e peer reply
    exact ⟨e, he, hid.symm, hterm.symm⟩
  · exact ⟨e', he', rfl, rfl⟩

variable [GrowthPolicy]

/-- A node on the disk of another finds its term and vote there. -/
theorem newRaftNode_vote {r : RaftNode} (hdir : r.dataDir ≠ "") (hdur : Durable r)
    (peers : List String) :
    (newRaftNode r.selfAddr peers r.dataDir r.disk).currentTerm = r.currentTerm ∧
      (newRaftNode r.selfAddr peers r.dataDir r.disk).votedFor = r.votedFor := by
  have hnew : Durable (newRaftNode r.selfAddr peers r.dataDir r.disk) := durable_newRaftNode hdir
  unfold Durable savedVote at hnew hdur
  rw [newRaftNode_disk, hdur] at hnew
  exact ⟨(Prod.mk.inj hnew).1.symm, (Prod.mk.inj hnew).2.symm⟩

/-- A restarted member remembers its vote and is no leader. -/
theorem MemberOk.reboot {p : Proc} {r : RaftNode} (h : MemberOk members book i p)
    (hnode : Calm p.node r) (hdir : p.node.dataDir ≠ "")
    (hsame : SameMembership p.node { p with node := r }.restart.node) :
    MemberOk members book i { p with node := r }.restart := by
  have hdir' : r.dataDir ≠ "" := hnode.dataDir ▸ hdir
  have hdur := hnode.durable hdir (h.durable hdir)
  obtain ⟨hterm, hvote⟩ := newRaftNode_vote hdir' hdur p.peerList
  have hself := newRaftNode_selfAddr r.selfAddr p.peerList r.dataDir r.disk
  constructor
  · exact hself.trans (hnode.selfAddr.trans h.self)
  · exact h.peerList
  · exact h.settled.of_same hsame (hself.trans hnode.selfAddr)
  · intro _
    exact durable_newRaftNode hdir'
  · intro t' c hc
    show _ ∧ (t' < (newRaftNode r.selfAddr p.peerList r.dataDir r.disk).currentTerm ∨
      t' = (newRaftNode r.selfAddr p.peerList r.dataDir r.disk).currentTerm ∧
      (newRaftNode r.selfAddr p.peerList r.dataDir r.disk).votedFor = c)
    rw [hterm, hvote]
    exact h.booked.calm hnode t' c hc
  · rintro e ⟨⟩
  · intro hl
    exact absurd ((newRaftNode_state _ _ _ _).symm.trans hl) (by decide)

/-- **One step**: the book can be extended so that it accounts for the cluster
after the step. -/
theorem VoteInv.step (hnd : members.Nodup) (hne : "" ∉ members) {s' : Cluster}
    {l : String × Event} (h : VoteInv members s book) (hstatic : s.Static l s')
    (hwrap : s.NoWrap l) (hdir : l.2.Restarts → (s.node l.1).dataDir ≠ "")
    (hst : s.step l = some s') :
    ∃ book', BookStep s l book book' ∧ VoteInv members s' book' := by
  obtain ⟨i, ev⟩ := l
  obtain ⟨hi, hdel, p, out, hp, rfl⟩ := Cluster.step_inv hst
  have hsame : SameMembership (s.node i) p.node := by
    have := hstatic i hi
    rwa [Cluster.put_node_self] at this
  rw [h.members_eq] at hi
  cases Proc.step_electionEffect hp with
  | calm hnode hel hid hlist hout =>
    exact ⟨book, .refl _ _ _, h.calm hi hnode hsame hel hid hlist hout⟩
  | campaign es hsub hlead hev =>
    exact h.campaign hnd hne hi hev hsub (hwrap hev) rfl hsame
  | ballot caller id args hev =>
    subst hev
    exact h.ballot hne hi (hdel _ rfl).2 hsame
  | tally e peer reply he hpeer hev =>
    subst hev
    exact ⟨book, .refl _ _ _, h.tally_reply hi he hpeer (hdel _ rfl).2 hsame⟩
  | reboot r hnode hev =>
    have hok := (h.member i hi).reboot hnode (hdir hev) hsame
    refine ⟨book, .refl _ _ _, h.update hi (.refl _) (fun _ _ _ => rfl) hok le_rfl ?_ (by simp)
      (by simp)⟩
    rintro e ⟨⟩

/-- No step changes the data directory. -/
theorem ElectionEffect.dataDir {p p' : Proc} {ev : Event} {out : List Message}
    (h : ElectionEffect p ev p' out) : p'.node.dataDir = p.node.dataDir := by
  cases h with
  | calm hnode => exact hnode.dataDir
  | campaign es =>
    obtain ⟨hnode, -⟩ := @Proc.startElection_spec { p with elections := es }
      (Proc.startElection _).1 (Proc.startElection _).2 rfl
    rw [hnode]
    exact (p.node.startElection_spec p.nextId).2.2.2.1
  | ballot caller id args =>
    rcases p.node.requestVote_cases args with ⟨-, hcalm⟩ | ⟨-, hg⟩
    · exact hcalm.dataDir
    · exact hg.dataDir
  | tally e peer reply =>
    show (p.node.handleVoteReply e peer reply).1.dataDir = _
    rcases p.node.handleVoteReply_cases e peer reply with ⟨hcalm, -⟩ | ⟨-, -, hr | ⟨hr, -⟩⟩
    · exact hcalm.dataDir
    · rw [hr]
    · rw [hr]
      rfl
  | reboot r hnode =>
    show (newRaftNode r.selfAddr p.peerList r.dataDir r.disk).dataDir = _
    rw [newRaftNode_dataDir]
    exact hnode.dataDir

theorem Cluster.step_dataDir {s' : Cluster} {l : String × Event} (hst : s.step l = some s')
    (j : String) : (s'.node j).dataDir = (s.node j).dataDir := by
  obtain ⟨k, ev⟩ := l
  obtain ⟨-, -, p, out, hp, rfl⟩ := Cluster.step_inv hst
  by_cases hjk : j = k
  · subst hjk
    rw [put_node_self]
    exact (Proc.step_electionEffect hp).dataDir
  · rw [put_node_ne _ _ _ _ hjk]

end effects

/-! ## Runs -/

section runs

variable [GrowthPolicy]

/-- A member that starts with all others as its peers and has not voted. -/
theorem memberOk_boot {members peers : List String} {i : String} {dir : String} {disk : Disk}
    {book : VoteBook String} (hi : i ∈ members) (hpeers : ∀ a, a ≠ i → (a ∈ peers ↔ a ∈ members))
    (hstable : (newRaftNode i peers dir disk).configState = .stable)
    (hbook : ∀ t, book i t = none) :
    MemberOk members book i { Proc.boot i peers dir disk with peerList := members } := by
  refine ⟨newRaftNode_selfAddr i peers dir disk, rfl, settled_of_peers hi hpeers hstable,
    fun hd => ?_, fun t c hc => ?_, ?_, fun hl => ?_⟩
  · exact durable_newRaftNode (newRaftNode_dataDir i peers dir disk ▸ hd)
  · rw [hbook] at hc
    cases hc
  · rintro e ⟨⟩
  · exact absurd ((newRaftNode_state i peers dir disk).symm.trans hl) (by decide)

/-- A booted cluster starts with an empty book. -/
theorem voteInv_boot {members : List String} {dataDir : String → String} {disk : String → Disk}
    (hstable : ∀ i ∈ members,
      (newRaftNode i members (dataDir i) (disk i)).configState = .stable) :
    VoteInv members (Cluster.boot members dataDir disk) fun _ _ => none where
  members_eq := rfl
  member i hi := memberOk_boot hi (fun _ _ => Iff.rfl) (hstable i hi) fun _ => rfl
  request := by rintro c id peer args ⟨⟩
  granted := by rintro c id peer reply ⟨⟩

/-- The steps of a cluster with static membership whose terms do not wrap. -/
def Cluster.Orderly (s : Cluster) (l : String × Event) (s' : Cluster) : Prop :=
  s.Static l s' ∧ s.NoWrap l

instance (s : Cluster) (l : String × Event) (s' : Cluster) : Decidable (s.Orderly l s') :=
  inferInstanceAs (Decidable (s.Static l s' ∧ s.NoWrap l))

/-- **Whole runs**: the book of a state grows into one of every later state. -/
theorem VoteInv.run {members : List String} (hnd : members.Nodup) (hne : "" ∉ members)
    {s s' : Cluster} {book : VoteBook String} (h : VoteInv members s book)
    (hdir : ∀ i ∈ members, (s.node i).dataDir ≠ "") (hrun : Run Cluster.step Cluster.Orderly s s') :
    (∀ i ∈ members, (s'.node i).dataDir ≠ "") ∧
      ∃ book', book.Extends book' ∧ VoteInv members s' book' := by
  refine hrun.invariant (P := fun t => (∀ i ∈ members, (t.node i).dataDir ≠ "") ∧
    ∃ book', book.Extends book' ∧ VoteInv members t book') ⟨hdir, book, .refl _, h⟩ ?_
  rintro t l u ⟨hdir, book', hext, hinv⟩ hg hst
  refine ⟨fun j hj => by rw [Cluster.step_dataDir hst]; exact hdir j hj, ?_⟩
  have hl : l.1 ∈ members := hinv.members_eq ▸ (Cluster.step_inv hst).1
  obtain ⟨book'', hext', hinv'⟩ := hinv.step hnd hne hg.1 hg.2 (fun _ => hdir l.1 hl) hst
  exact ⟨book'', hext.trans hext'.grows, hinv'⟩

/-- **Election safety**: in a cluster started by `NewRaftNode` on arbitrary disks
no two members ever lead in the same term, not even at different times, as long
as no election starts in the largest `uint64` term. -/
theorem leader_unique {members : List String} (hnd : members.Nodup) (hne : "" ∉ members)
    {dataDir : String → String} (hdir : ∀ i ∈ members, dataDir i ≠ "") {disk : String → Disk}
    (hstable : ∀ i ∈ members,
      (newRaftNode i members (dataDir i) (disk i)).configState = .stable)
    {s s' : Cluster}
    (hrun : Run Cluster.step Cluster.Orderly (Cluster.boot members dataDir disk) s)
    (hrun' : Run Cluster.step Cluster.Orderly s s') {i j : String}
    (hi : i ∈ members) (hj : j ∈ members) (hleadi : (s.node i).state = .leader)
    (hleadj : (s'.node j).state = .leader)
    (hterm : (s.node i).currentTerm = (s'.node j).currentTerm) : i = j := by
  have hboot : ∀ i ∈ members, ((Cluster.boot members dataDir disk).node i).dataDir ≠ "" := by
    intro i hi
    show (newRaftNode i members (dataDir i) (disk i)).dataDir ≠ ""
    rw [newRaftNode_dataDir]
    exact hdir i hi
  obtain ⟨hdirs, book, -, hinv⟩ := (voteInv_boot hstable).run hnd hne hboot hrun
  obtain ⟨-, book', hext, hinv'⟩ := hinv.run hnd hne hdirs hrun'
  have hwon := hext.won ((hinv.member i hi).leader hleadi)
  have hwon' := (hinv'.member j hj).leader hleadj
  change book'.Won members (s.node i).currentTerm i at hwon
  rw [hterm] at hwon
  exact VoteBook.winner_unique hwon hwon'

end runs

section traces

open scoped GrowthPolicy

/-- Three members in one term; `v` is one entry ahead of the others, so that it
grants their requests. -/
def threeMembers (term : ℕ) : Cluster :=
  Cluster.boot ["a", "b", "v"] (fun _ => "data") fun i =>
    Cluster.savedDisk ["a", "b", "v"] term 0 (if i = "v" then [{ term := 0, index := 1 }] else [])

/-- `a` is elected with the vote of `v`. -/
def electA (term : ℕ) : List (String × Event) :=
  [("a", .electionTimeout),
    ("v", .requestVote "a" 0 { term, candidateId := "a", lastLogIndex := 0, lastLogTerm := 0 }),
    ("a", .voteReply 0 "v" { term, voteGranted := true })]

theorem leader_unique_threeMembers :
    ∃ s, (s.node "a").state = .leader ∧ ∀ j ∈ ["a", "b", "v"], ∀ s',
      Run Cluster.step Cluster.Orderly s s' → (s'.node j).state = .leader →
        (s.node "a").currentTerm = (s'.node j).currentTerm → "a" = j := by
  obtain ⟨s, hrun, hlead⟩ : ∃ s,
      Run Cluster.step Cluster.Orderly (threeMembers 4) s ∧ (s.node "a").state = .leader :=
    exists_run_of_execWith (electA 5) (by decide +kernel)
  refine ⟨s, hlead, fun j hj s' hrun' hlead' hterm => ?_⟩
  exact leader_unique (by decide) (by decide) (fun _ _ => by decide) (by decide +kernel)
    hrun hrun' (by decide) hj hlead hlead' hterm

/-- From the largest term but one: `a` leads in the largest term, `v` wraps
around to term 0 and learns from `b` of the term before the largest, and its
vote makes `b` a second leader in the largest term. -/
theorem two_leaders_after_wrap :
    ∃ s, Run Cluster.step Cluster.Static (threeMembers (size64 - 2)) s ∧
      (s.node "a").state = .leader ∧ (s.node "b").state = .leader ∧
      (s.node "a").currentTerm = (s.node "b").currentTerm :=
  exists_run_of_execWith
    (electA (size64 - 1) ++
      [("v", .electionTimeout),
        ("b", .requestVote "v" 0
          { term := 0, candidateId := "v", lastLogIndex := 1, lastLogTerm := 0 }),
        ("v", .voteReply 0 "b" { term := size64 - 2, voteGranted := false }),
        ("b", .electionTimeout),
        ("v", .requestVote "b" 0
          { term := size64 - 1, candidateId := "b", lastLogIndex := 0, lastLogTerm := 0 }),
        ("b", .voteReply 0 "v" { term := size64 - 1, voteGranted := true })])
    (by decide +kernel)

end traces

end DistributedMQ.Raft
