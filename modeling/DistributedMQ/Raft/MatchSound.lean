import DistributedMQ.Raft.LeaderCompleteness

/-!
# What `matchIndex` says about a peer's log

- `Agreed hist a q T m`: in some visited state `a` led in term `T` and the logs
  of `a` and `q` were the same up to index `m`.
- `SoundInv`: every acknowledgement of a term that its leader is still in is
  `Backed` by such a state; `SoundInv.step` and `SoundInv.trail` carry it along
  a run.
- `matchIndex_agreed`: whatever a leader has recorded, the peer's log agreed
  with the leader's at some moment of this leadership.

The handler of a reply compares only the term in the reply with the current one.
A leader that was deposed, had to truncate its log and is elected again counts
the late reply to a request of its first leadership, which is about entries
neither log has to hold any more (`stale_reply_recorded`). The runs of
`matchIndex_agreed` are those in which a leader drops such replies
(`Cluster.RepliesCurrent`).
-/

namespace DistributedMQ.Raft

open RaftNode Machine TermLog

/-! ## Guard -/

/-- The steps under which acknowledgements can be trusted. -/
def Cluster.Acknowledging (s : Cluster) (l : String × Event) (s' : Cluster) : Prop :=
  s.Careful l s' ∧ s.RepliesCurrent l

instance (s : Cluster) (l : String × Event) (s' : Cluster) : Decidable (s.Acknowledging l s') :=
  inferInstanceAs (Decidable (s.Careful l s' ∧ s.RepliesCurrent l))

/-! ## The invariant -/

/-- In one of the states `a` led in term `T` and had the same log as `q` up to
index `m`. -/
def Agreed (hist : List Cluster) (a q : String) (T m : ℕ) : Prop :=
  ∃ u ∈ hist, (u.node a).state = .leader ∧ (u.node a).currentTerm = T ∧
    ∀ k ≤ m, ∃ e, (u.node q).log.elems[k]? = some e ∧ (u.node a).log.elems[k]? = some e

/-- An acknowledgement for term `T` of leader `a`, as long as `a` is in it. -/
def Backed (hist : List Cluster) (s : Cluster) (a q : String) (T m : ℕ) : Prop :=
  T ≤ (s.node a).currentTerm ∧ ((s.node a).currentTerm = T → Agreed hist a q T m)

structure SoundInv (members : List String) (base : ℕ) (hist : List Cluster) (s : Cluster)
    (book : VoteBook String) (A : Archive LogEntry String) : Prop where
  log : LogInv members base s book A
  acks : AckInv members s (Backed hist s)
  refused : ∀ c id reply, Message.snapshotReply c id reply ∈ s.net → reply.success = false

section step

variable [GrowthPolicy] {members : List String} {base : ℕ} {hist : List Cluster} {s : Cluster}
  {book book' : VoteBook String} {A A' : Archive LogEntry String} {i : String} {ev : Event}
  {p : Proc} {out : List Message}

/-- Only an `InstallSnapshot` that is served is answered with success. -/
theorem Proc.step_snapshotReply {p p' : Proc} (hplain : ev.plain = true)
    (h : p.step ev = some (p', out)) {c : String} {id : ℕ} {reply : InstallSnapshotReply}
    (hmsg : Message.snapshotReply c id reply ∈ out) : reply.success = false := by
  cases step_cases h with
  | installSnapshot caller id args => exact absurd hplain Bool.false_ne_true
  | snapshotFailed id =>
    cases List.mem_singleton.mp hmsg
    rfl
  -- the other messages are no answers to snapshots
  | _ => grind [Proc.startElection]

/-- A successful reply is that to a request the member has just accepted. -/
theorem Moved.accepted (hm : Moved members s i ev p out book book') (hplain : ev.plain = true)
    {c : String} {id : ℕ} {reply : AppendEntriesReply}
    (hmsg : Message.appendReply c id reply ∈ out) (hsucc : reply.success = true) :
    ∃ args, Message.appendRequest c id i args ∈ s.net ∧ (s.node i).Accepts args ∧
      p.node = ((s.node i).appendEntries args).1 := by
  have hdel := hm.delivered
  cases hm.effect with
  | quiet _ _ _ hout =>
    rw [show reply.success = false from hout _ hmsg] at hsucc
    cases hsucc
  | append => cases hmsg
  | send => cases hmsg
  | marshal => cases List.mem_singleton.mp hmsg
  | accept caller id' args hev hacc =>
    subst hev
    injection List.mem_singleton.mp hmsg with hc hid
    subst hc hid
    exact ⟨args, (hdel _ rfl).2, hacc, rfl⟩
  | snapshot caller id' args hev =>
    subst hev
    cases hplain
  | joint hjoint => exact absurd hjoint hm.not_joint
  | reboot hev => exact absurd hev (Event.not_restarts_of_plain hplain)

/-- A member that has accepted a request has the leader's log up to the last
entry of the request. -/
theorem LogInv.agree_of_accept (h : LogInv members base s book A) (hi : i ∈ members)
    {caller : String} {id : ℕ} {args : AppendEntriesArgs}
    (hmsg : Message.appendRequest caller id i args ∈ s.net) (hacc : (s.node i).Accepts args) :
    ∃ L, A.led args.term = some (caller, L) ∧
      ∀ k ≤ args.prevLogIndex + args.entries.length, ∃ e,
        ((s.node i).appendEntries args).1.log.elems[k]? = some e ∧ L[k]? = some e := by
  obtain ⟨-, M, hM⟩ := h.request caller id i args hmsg
  obtain ⟨L, hled, hpre⟩ := hM.led
  have hlen := hM.length_eq
  -- the carried log is a prefix of both
  have hnew : M <+: ((s.node i).appendEntries args).1.log.elems := by
    rw [hacc.log, GoSlice.elems_splice]
    rcases h.ok.splice_cases hM (h.member i hi).known hacc.2.1 hacc.check with
      ⟨hold, heq⟩ | ⟨-, heq⟩
    · exact heq.symm ▸ hold
    · exact heq.symm ▸ List.prefix_rfl
  refine ⟨L, hled, fun k hk => ?_⟩
  have hget : M[k]? = some M[k] := List.getElem?_eq_getElem (by omega)
  exact ⟨_, getElem?_of_prefix hnew hget, getElem?_of_prefix hpre hget⟩

/-- What was backed stays so, or is of a term that is over. -/
theorem Moved.backed (hm : Moved members s i ev p out book book') {a q : String} {T m : ℕ}
    (h : Backed hist s a q T m) : Backed (s.put i p out :: hist) (s.put i p out) a q T m := by
  obtain ⟨hle, hagreed⟩ := h
  refine ⟨hle.trans (hm.term_le a), fun heq => ?_⟩
  obtain ⟨u, hu, hstate⟩ := hagreed (le_antisymm (heq ▸ hm.term_le a) hle)
  exact ⟨u, List.mem_cons_of_mem _ hu, hstate⟩

omit [GrowthPolicy] in
/-- All logs start with the sentinel. -/
theorem LogInv.backed_zero (h : LogInv members base s book A) (past : List Cluster)
    {a q : String} (ha : a ∈ members) (hq : q ∈ members) (hlead : (s.node a).state = .leader) :
    Backed (s :: past) s a q (s.node a).currentTerm 0 := by
  refine ⟨le_rfl, fun _ => ⟨s, List.mem_cons_self, hlead, rfl, fun k hk => ⟨sentinel, ?_⟩⟩⟩
  obtain rfl : k = 0 := Nat.le_zero.mp hk
  exact ⟨h.ok.root _ (h.member q hq).known, h.ok.root _ (h.member a ha).known⟩

/-- A request that has just been accepted: its leader, if it is still in the
term of the request, has the log the entries were cut from. -/
theorem SoundInv.backed_accept (h : SoundInv members base hist s book A)
    (hm : Moved members s i ev p out book book') {caller : String} {id : ℕ}
    {args : AppendEntriesArgs} (hmsg : Message.appendRequest caller id i args ∈ s.net)
    (hacc : (s.node i).Accepts args) (hnode : p.node = ((s.node i).appendEntries args).1) :
    Backed (s.put i p out :: hist) (s.put i p out) caller i args.term
      (args.prevLogIndex + args.entries.length) := by
  have hne : caller ≠ i := (h.log.request caller id i args hmsg).1.symm
  obtain ⟨L, hled, hagree⟩ := h.log.agree_of_accept hm.mem hmsg hacc
  obtain ⟨hcaller, -, hle, hkeep⟩ := h.log.led _ _ _ hled
  refine ⟨hle.trans (hm.term_le caller), fun heq => ⟨_, List.mem_cons_self, ?_, heq, ?_⟩⟩
  · rw [Cluster.put_node_ne _ _ _ _ hne] at heq ⊢
    exact hkeep heq
  · rw [Cluster.put_node_ne _ _ _ _ hne] at heq
    rw [Cluster.put_node_self, Cluster.put_node_ne _ _ _ _ hne, hnode]
    have hlog := (h.log.member caller hcaller).lead (hkeep heq)
    rw [show (s.procs caller).node.currentTerm = _ from heq, hled] at hlog
    obtain ⟨-, rfl⟩ := Prod.mk.inj (Option.some.inj hlog)
    exact hagree

/-- A careful step on current replies keeps every acknowledged index backed by a log. -/
theorem SoundInv.step (hnd : members.Nodup) (hne : "" ∉ members) {s' : Cluster}
    {l : String × Event} (h : SoundInv members base hist s book A) (hg : s.Acknowledging l s')
    (hst : s.step l = some s') :
    ∃ book' A', SoundInv members base (s' :: hist) s' book' A' := by
  obtain ⟨book', A', hlog'⟩ := h.log.step hnd hne hg.1 hst
  obtain ⟨p, out, book₁, rfl, hm⟩ := h.log.moved hnd hne hg.1 hst
  obtain ⟨i, ev⟩ := l
  have hplain : ev.plain = true := hg.1.1.2
  refine ⟨book', A', hlog', ?_, fun c id reply hmsg => ?_⟩
  · refine h.acks.step h.log hm hplain (fun id reply hev => ?_) hg.2 (fun _ _ _ _ => hm.backed)
      (fun hlead q hq => ?_) fun c id reply hmsg hsucc => ?_
    · subst hev
      exact h.refused i id reply (hm.delivered _ rfl).2
    · have hmem := hlog'.vote.member i hm.mem
      rw [Cluster.put_procs_self] at hmem
      have hzero := hlog'.backed_zero hist hm.mem ((hmem.settled.mem_peers q).mp hq).1
      rw [Cluster.put_node_self] at hzero
      exact hzero hlead
    · obtain ⟨args, hargs, hacc, hnode⟩ := hm.accepted hplain hmsg hsucc
      exact ⟨i, args, hargs, h.backed_accept hm hargs hacc hnode⟩
  · rcases List.mem_append.mp hmsg with hmsg | hmsg
    · exact h.refused c id reply hmsg
    · exact Proc.step_snapshotReply hplain hm.step hmsg

end step

/-! ## Runs -/

section runs

variable [GrowthPolicy] {members : List String} {dataDir : String → String} {disk : String → Disk}

theorem SoundInv.trail (hstart : StartOk members dataDir disk) {hist : List Cluster} {s : Cluster}
    (htrail : Trail Cluster.step Cluster.Acknowledging (Cluster.boot members dataDir disk) hist s) :
    ∃ base book A, SoundInv members base hist s book A := by
  obtain ⟨base, hboot⟩ := logInv_boot hstart
  refine ⟨base, htrail.invariant (P := fun hist t => ∃ book A, SoundInv members base hist t book A)
    ⟨_, _, hboot, ackInv_boot dataDir disk _, by rintro c id reply ⟨⟩⟩ ?_⟩
  rintro hist t l u ⟨book, A, hinv⟩ hg hst
  exact hinv.step hstart.nodup hstart.named hg hst

/-- **`matchIndex` is sound**: while a node leads, what it has recorded for a
peer has been true of the peer's log at some moment of this leadership. -/
theorem matchIndex_agreed (hstart : StartOk members dataDir disk) {hist : List Cluster}
    {s : Cluster}
    (htrail : Trail Cluster.step Cluster.Acknowledging (Cluster.boot members dataDir disk) hist s)
    {a q : String} (ha : a ∈ members) (hlead : (s.node a).state = .leader) {m : ℕ}
    (hmatch : (s.node a).matchIndex.lookup q = some m) :
    Agreed hist a q (s.node a).currentTerm m := by
  obtain ⟨base, book, A, hinv⟩ := SoundInv.trail hstart htrail
  exact ((hinv.acks.member a ha).acked hlead q m hmatch).2 rfl

end runs

section traces

open scoped GrowthPolicy

theorem matchIndex_agreed_threeMembers :
    ∃ (hist : List Cluster) (s : Cluster), (s.node "a").matchIndex.lookup "b" = some 1000 ∧
      Agreed hist "a" "b" (s.node "a").currentTerm 1000 := by
  obtain ⟨hist, s, htrail, hlead, hmatch⟩ :
      ∃ hist s, Trail Cluster.step Cluster.Acknowledging
          (Cluster.boot ["a", "b", "c"] (fun _ => "data") threeDisks) hist s ∧
        (s.node "a").state = .leader ∧ (s.node "a").matchIndex.lookup "b" = some 1000 :=
    exists_trail_of_execTrail (replicateToB ++ [commitAtA]) (by decide +kernel)
  exact ⟨hist, s, hmatch, matchIndex_agreed startOk_threeDisks htrail (by decide) hlead hmatch⟩

/-- The request for a vote of a node whose log is the longer history. -/
def longVoteArgs (candidate : String) (term : ℕ) : RequestVoteArgs where
  term := term
  candidateId := candidate
  lastLogIndex := 1000
  lastLogTerm := 0

/-- `a` is elected by `b` in term 2, takes a command and brings it to `c`, whose
answer is late. -/
def replicateToC : List (String × Event) :=
  [("a", .electionTimeout),
    ("b", .requestVote "a" 0 (voteArgs "a" 2)),
    ("a", .voteReply 0 "b" { term := 2, voteGranted := true }),
    ("a", .submitCommand "t" 0 [1]),
    ("a", .sendAppendEntries "c"),
    ("a", .marshal 1),
    ("c", .appendEntries "a" 1 { appendArgs "a" 2 [committedEntry] with leaderCommit := 999 })]

/-- `b` is elected by `a` in term 3 and replaces what follows index 999 in `a`'s log, which ends
at `last`, by its own last entry, at the second attempt. -/
def truncateAtA (last : ℕ) : List (String × Event) :=
  [("b", .electionTimeout),
    ("a", .requestVote "b" 0 (longVoteArgs "b" 3)),
    ("b", .voteReply 0 "a" { term := 3, voteGranted := true }),
    ("b", .sendAppendEntries "a"),
    ("b", .marshal 1),
    ("a", .appendEntries "b" 1
      { appendArgs "b" 3 [] with prevLogIndex := 1000, leaderCommit := 999 }),
    ("b", .appendReply 1
      { term := 3, success := false, conflictIndex := 1000, lastLogIndex := last }),
    ("b", .sendAppendEntries "a"),
    ("b", .marshal 2),
    ("a", .appendEntries "b" 2
      { appendArgs "b" 3 [{ term := 0, index := 1000 }] with leaderCommit := 999 })]

/-- `a` is elected again, by `c` in term 4, and gets the late answer. -/
def reelectA : List (String × Event) :=
  [("a", .electionTimeout),
    ("c", .requestVote "a" 2 (longVoteArgs "a" 4)),
    ("a", .voteReply 2 "c" { term := 4, voteGranted := true }),
    ("a", .appendReply 1 { term := 2, success := true, lastLogIndex := 1000 })]

/-- `a` records in term 4 that `c` has its log up to index 1000, from the answer
to a request of term 2: since its election the two logs have never been the
same at index 1000. -/
theorem stale_reply_recorded :
    StartOk ["a", "b", "c"] (fun _ => "data") threeDisks ∧
      ∃ hist s, Trail Cluster.step Cluster.Careful
          (Cluster.boot ["a", "b", "c"] (fun _ => "data") threeDisks) hist s ∧
        (s.node "a").state = .leader ∧ (s.node "a").matchIndex.lookup "c" = some 1000 ∧
        ¬ Agreed hist "a" "c" (s.node "a").currentTerm 1000 := by
  obtain ⟨hist, s, htrail, hlead, hmatch, hdiffer⟩ :
      ∃ hist s, Trail Cluster.step Cluster.Careful
          (Cluster.boot ["a", "b", "c"] (fun _ => "data") threeDisks) hist s ∧
        (s.node "a").state = .leader ∧ (s.node "a").matchIndex.lookup "c" = some 1000 ∧
        ∀ u ∈ hist, (u.node "a").currentTerm = (s.node "a").currentTerm →
          (u.node "c").log.elems[1000]? ≠ (u.node "a").log.elems[1000]? :=
    exists_trail_of_execTrail (replicateToC ++ truncateAtA 1000 ++ reelectA) (by decide +kernel)
  refine ⟨startOk_threeDisks, hist, s, htrail, hlead, hmatch, ?_⟩
  rintro ⟨u, hu, -, hterm, hagree⟩
  obtain ⟨e, hc, ha⟩ := hagree 1000 le_rfl
  exact hdiffer u hu hterm (hc.trans ha.symm)

end traces

end DistributedMQ.Raft
