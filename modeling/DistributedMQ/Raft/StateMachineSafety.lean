import DistributedMQ.Lib.CommittedLog
import DistributedMQ.Raft.AppendOnly
import DistributedMQ.Raft.CommitSteps
import DistributedMQ.Raft.LeaderCompleteness

/-!
# State machine safety

All commit indices of a cluster are about one log.

- `SafeInv`: what a member takes as committed, and what a request says its leader has committed, is
  committed in the sense of `View.Committed`.
- `CommitInv.safe_step`: a step keeps it, and the part of its log that the member takes as committed
  only grows.
- `stateMachineSafety`: there is one committed log. It only grows, every member has committed a
  prefix of it, and has sent its broker exactly the data entries of what it has applied.

The runs are those of leader completeness (`Cluster.Completing`). Of the files the members start on,
`Start` asks in addition that what any of them has committed is in all of them.
-/

namespace DistributedMQ.Raft

open RaftNode Machine TermLog

/-! ## The committed part of a log -/

namespace RaftNode

/-- What a node takes as committed. -/
def committedLog (r : RaftNode) : List LogEntry := r.log.elems.take (r.commitIndex + 1)

variable {r r' : RaftNode}

theorem committedLog_prefix_log (r : RaftNode) : r.committedLog <+: r.log.elems :=
  List.take_prefix _ _

theorem length_committedLog (h : r.commitIndex < r.log.len) :
    r.committedLog.length = r.commitIndex + 1 := List.length_take_of_le h

/-- A log that starts with the committed part of another one, with the same commit index. -/
theorem committedLog_eq (h : r.commitIndex < r.log.len) (hlog : r.committedLog <+: r'.log.elems)
    (hcommit : r'.commitIndex = r.commitIndex) : r'.committedLog = r.committedLog := by
  have heq := List.prefix_iff_eq_take.mp hlog
  rw [length_committedLog h] at heq
  rw [heq, committedLog, hcommit]

/-- A later commit index shows more of a log that starts with what was committed. -/
theorem committedLog_prefix (hlog : r.committedLog <+: r'.log.elems)
    (hcommit : r.commitIndex ≤ r'.commitIndex) : r.committedLog <+: r'.committedLog := by
  refine List.prefix_take_iff.mpr ⟨hlog, ?_⟩
  exact (List.length_take_le _ _).trans (Nat.succ_le_succ hcommit)

theorem commitIndex_lt_of_prefix (h : r.commitIndex < r.log.len)
    (hlog : r.committedLog <+: r'.log.elems) : r.commitIndex < r'.log.len := by
  have hle := hlog.length_le
  rw [length_committedLog h] at hle
  exact hle

end RaftNode

/-! ## The invariant -/

section invariant

variable (members : List String) (K : List LogEntry) (V : View LogEntry String)

/-- What the node takes as committed is so. -/
structure CommitSafe (r : RaftNode) : Prop where
  bound : r.commitIndex < r.log.len
  committed : V.Committed LogEntry.term members K r.currentTerm r.committedLog

/-- A request of term `T` that carries the leader's log up to `last` says that the part up to
`leaderCommit` is committed, and it is. -/
structure Announced (T last leaderCommit : ℕ) : Prop where
  within : leaderCommit ≤ last
  committed : ∃ c L, V.archive.led T = some (c, L) ∧ leaderCommit < L.length ∧
    V.Committed LogEntry.term members K T (L.take (leaderCommit + 1))

structure SafeInv (s : Cluster) : Prop where
  member : ∀ i ∈ members, CommitSafe members K V (s.node i)
  applied : ∀ i ∈ members, (s.node i).lastApplied ≤ (s.node i).commitIndex
  call : ∀ i ∈ members, ∀ c ∈ (s.procs i).appends,
    Announced members K V c.term (c.prevLogIndex + c.entries.len) c.leaderCommit
  request : ∀ c id peer args, Message.appendRequest c id peer args ∈ s.net →
    Announced members K V args.term (args.prevLogIndex + args.entries.length) args.leaderCommit

end invariant

variable {members : List String} {K : List LogEntry} {V V' : View LogEntry String}

theorem Announced.mono (hled : V.archive.Le V'.archive) (hacc : ∀ q T, V.acc q T ≤ V'.acc q T)
    {T last leaderCommit : ℕ} (h : Announced members K V T last leaderCommit) :
    Announced members K V' T last leaderCommit := by
  obtain ⟨c, L, hL, hlt, hcommitted⟩ := h.committed
  obtain ⟨L', hL', hpre⟩ := hled.led T c L hL
  refine ⟨h.within, c, L', hL', hlt.trans_le hpre.length_le, ?_⟩
  obtain ⟨R, rfl⟩ := hpre
  rw [List.take_append_of_le_length hlt]
  exact hcommitted.mono hled hacc le_rfl

/-- The commit index stays and the log keeps what is before it. -/
theorem CommitSafe.keep (hled : V.archive.Le V'.archive) (hacc : ∀ q T, V.acc q T ≤ V'.acc q T)
    {r r' : RaftNode} (h : CommitSafe members K V r) (hterm : r.currentTerm ≤ r'.currentTerm)
    (hlog : r.committedLog <+: r'.log.elems) (hcommit : r'.commitIndex = r.commitIndex) :
    CommitSafe members K V' r' := by
  refine ⟨hcommit ▸ commitIndex_lt_of_prefix h.bound hlog, ?_⟩
  rw [committedLog_eq h.bound hlog hcommit]
  exact h.committed.mono hled hacc hterm

/-! ## What a step commits -/

/-- A leader's log is committed up to an entry of its term that a majority has accepted. -/
theorem CommitInv.committedIn {base : ℕ} {s : Cluster} {book : VoteBook String}
    {A : Archive LogEntry String} {acc : String → ℕ → ℕ}
    (h : CommitInv members base s book A acc) {i : String} (hi : i ∈ members)
    (hlead : (s.node i).state = .leader) {n : ℕ} {e : LogEntry} (hpos : 0 < n)
    (hget : (s.node i).log.elems[n]? = some e) (hterm : e.term = (s.node i).currentTerm)
    (hmaj : Majority members fun q => n ≤ acc q (s.node i).currentTerm) :
    (s.view book A acc).CommittedIn LogEntry.term members (s.node i).currentTerm
      ((s.node i).log.elems.take (n + 1)) :=
  ⟨i, _, n, e, (h.log.member i hi).lead hlead, hpos, hterm, hget, hmaj, List.prefix_rfl⟩

/-- Without peers the leader is a majority. -/
theorem CommitInv.majority_alone {base : ℕ} {s : Cluster} {book : VoteBook String}
    {A : Archive LogEntry String} {acc : String → ℕ → ℕ} (hnd : members.Nodup)
    (h : CommitInv members base s book A acc) {i : String} (hi : i ∈ members)
    (hlead : (s.node i).state = .leader) (hpeers : (s.node i).peers.keys = []) {n : ℕ}
    (hn : n < (s.node i).log.len) :
    Majority members fun q => n ≤ acc q (s.node i).currentTerm := by
  refine ⟨members, hnd, List.Subset.refl _, ?_, fun q hq => ?_⟩
  · have hpos := List.length_pos_of_mem hi
    omega
  · have hvote := h.log.vote.member i hi
    have hself : q = i := by
      by_contra hne
      have hmem := (hvote.settled.mem_peers q).mpr ⟨hq, by rw [hvote.self]; exact hne⟩
      rw [show (s.procs i).node.peers.keys = [] from hpeers] at hmem
      cases hmem
    subst hself
    have hown := (h.member q hi).own hlead
    change (s.node q).log.len ≤ acc q (s.node q).currentTerm + 1 at hown
    omega

section step

variable [GrowthPolicy] {base : ℕ} {s t : Cluster} {book book' : VoteBook String}
  {A A' : Archive LogEntry String} {acc acc' : String → ℕ → ℕ} {i : String}

omit [GrowthPolicy] in
/-- A leader handles a reply: it commits what a majority has acknowledged. -/
theorem CommitInv.safe_reply (h' : CommitInv members base t book' A' acc')
    (hled : A.Le A') (hacc : ∀ q T, acc q T ≤ acc' q T) (hi : i ∈ members)
    (hmove : TermMove (s.node i) (t.node i))
    (hsafe : CommitSafe members K (s.view book A acc) (s.node i)) {c : AppendCall}
    {reply : AppendEntriesReply} (hnode : t.node i = (s.node i).handleAppendReply c reply) :
    CommitSafe members K (t.view book' A' acc') (t.node i) ∧
      (s.node i).committedLog <+: (t.node i).committedLog := by
  have hlog : (t.node i).log = (s.node i).log := by
    rw [hnode]
    exact handleAppendReply_log _ c reply
  have hkeep : (s.node i).committedLog <+: (t.node i).log.elems := by
    rw [hlog]
    exact committedLog_prefix_log _
  have hcommit : (s.node i).commitIndex ≤ (t.node i).commitIndex := by
    rw [hnode]
    exact le_handleAppendReply_commitIndex _ c reply
  refine ⟨?_, committedLog_prefix hkeep hcommit⟩
  rcases hcommit.eq_or_lt with heq | hlt
  · exact hsafe.keep hled hacc hmove.term_le hkeep heq.symm
  · have hle : (t.node i).commitIndex ≤ ((s.node i).handleAppendReply c reply).commitIndex :=
      (congrArg commitIndex hnode).le
    obtain ⟨hlead, hlen, hown, hquorum⟩ := handleAppendReply_commit hlt hle
    rw [← hnode] at hlead hlen hown hquorum
    have hpos := Nat.zero_lt_of_lt hlt
    obtain ⟨e, hget, ⟨-, hterm, -⟩, hmaj⟩ := h'.chosen hi hpos hlead hlen hown hquorum
    exact ⟨hlen, Or.inr ⟨_, le_rfl, h'.committedIn hi hlead hpos hget hterm hmaj⟩⟩

/-- A leader without peers takes a command and commits it. -/
theorem CommitInv.safe_alone (hnd : members.Nodup)
    (h' : CommitInv members base t book' A' acc') (hi : i ∈ members)
    (hsame : SameMembership (s.node i) (t.node i))
    (hsafe : CommitSafe members K (s.view book A acc) (s.node i)) {topic : String} {partition : ℤ}
    {data : List UInt8} (hlead : (s.node i).state = .leader)
    (hpeers : (s.node i).peers.keys = [])
    (hnode : t.node i = ((s.node i).submitCommand topic partition data).1) :
    CommitSafe members K (t.view book' A' acc') (t.node i) ∧
      (s.node i).committedLog <+: (t.node i).committedLog := by
  obtain ⟨hlog, hstate, hterm⟩ := submitCommand_leader hlead topic partition data
  have hcommit := submitCommand_alone hlead hpeers topic partition data
  rw [← hnode] at hlog hstate hterm hcommit
  have helems : (t.node i).log.elems =
      (s.node i).log.elems ++ [(s.node i).commandEntry topic partition data] := by
    rw [hlog, GoSlice.elems_append]
  have hlen : (t.node i).commitIndex < (t.node i).log.len := by
    rw [hcommit, GoSlice.len, GoSlice.len, helems, List.length_append]
    exact Nat.lt_succ_self _
  have hpos : 0 < (t.node i).commitIndex := by
    rw [hcommit]
    exact Nat.zero_lt_of_lt hsafe.bound
  have hget : (t.node i).log.elems[(t.node i).commitIndex]? =
      some ((s.node i).commandEntry topic partition data) := by
    rw [hcommit, helems]
    exact List.getElem?_concat_length
  have hmaj := h'.majority_alone hnd hi hstate (by rw [hsame.peers]; exact hpeers) hlen
  refine ⟨⟨hlen, Or.inr ⟨_, le_rfl, h'.committedIn hi hstate hpos hget hterm.symm hmaj⟩⟩,
    committedLog_prefix ?_ ?_⟩
  · rw [helems]
    exact (committedLog_prefix_log _).trans (List.prefix_append _ _)
  · rw [hcommit]
    exact hsafe.bound.le

/-- What a follower has committed is in the log it has after merging a request: the request's leader
has it too. -/
theorem CommitInv.committed_kept (h : CommitInv members base s book A acc) (hi : i ∈ members)
    (hsafe : CommitSafe members K (s.view book A acc) (s.node i)) {caller : String} {id : ℕ}
    {args : AppendEntriesArgs} (hmsg : Message.appendRequest caller id i args ∈ s.net)
    (haccepts : (s.node i).Accepts args)
    (hK : K <+: ((s.node i).appendEntries args).1.log.elems) :
    (s.node i).committedLog <+: ((s.node i).appendEntries args).1.log.elems := by
  obtain ⟨-, M, hM⟩ := h.log.request caller id i args hmsg
  obtain ⟨L, hL, hpre⟩ := hM.led
  rw [haccepts.log, GoSlice.elems_splice] at hK ⊢
  rcases h.log.ok.splice_cases hM (h.log.member i hi).known haccepts.2.1 haccepts.check with
    ⟨-, heq⟩ | ⟨hnot, heq⟩
  · rw [show splice _ (s.node i).log.elems _ _ = _ from heq]
    exact committedLog_prefix_log _
  · rw [show splice _ (s.node i).log.elems _ _ = _ from heq] at hK ⊢
    rcases hsafe.committed with hstart | ⟨T, hT, hin⟩
    · exact hstart.trans hK
    · have hlead := h.view.prefix_leader hin (hT.trans haccepts.1) hL
      rcases List.prefix_or_prefix_of_prefix hlead hpre with hgood | hbad
      · exact hgood
      · exact absurd (hbad.trans (committedLog_prefix_log _)) hnot

/-- A follower accepts a request and follows its leader's commit index. -/
theorem CommitInv.safe_accept (h : CommitInv members base s book A acc) (hled : A.Le A')
    (hacc : ∀ q T, acc q T ≤ acc' q T) (hi : i ∈ members)
    (hsafe : CommitSafe members K (s.view book A acc) (s.node i)) {caller : String} {id : ℕ}
    {args : AppendEntriesArgs} (hmsg : Message.appendRequest caller id i args ∈ s.net)
    (hann : Announced members K (s.view book A acc) args.term
      (args.prevLogIndex + args.entries.length) args.leaderCommit)
    (haccepts : (s.node i).Accepts args) (hnode : t.node i = ((s.node i).appendEntries args).1)
    (hK : K <+: (t.node i).log.elems) :
    CommitSafe members K (t.view book' A' acc') (t.node i) ∧
      (s.node i).committedLog <+: (t.node i).committedLog := by
  rw [hnode] at hK ⊢
  have hkeep := h.committed_kept hi hsafe hmsg haccepts hK
  have hterm : ((s.node i).appendEntries args).1.currentTerm = args.term :=
    (appendEntries_term haccepts.1).2
  have hindex : ((s.node i).appendEntries args).1.commitIndex =
      if args.leaderCommit > (s.node i).commitIndex then
        min args.leaderCommit (((s.node i).appendEntries args).1.log.len - 1)
      else (s.node i).commitIndex := by
    rw [appendEntries_accept haccepts, acceptEntries_commitIndex, observeTerm_commitIndex]
  by_cases hlate : args.leaderCommit > (s.node i).commitIndex
  · obtain ⟨-, M, hM⟩ := h.log.request caller id i args hmsg
    obtain ⟨L, hL, hpre⟩ := hM.led
    obtain ⟨c, L', hL', hlt, hcommitted⟩ := hann.committed
    obtain ⟨-, rfl⟩ :=
      Prod.mk.inj (Option.some.inj ((show A.led args.term = _ from hL').symm.trans hL))
    -- the new log starts with the one the request was cut from
    have hMlog : M <+: ((s.node i).appendEntries args).1.log.elems := by
      rw [haccepts.log, GoSlice.elems_splice]
      rcases h.log.ok.splice_cases hM (h.log.member i hi).known haccepts.2.1 haccepts.check with
        ⟨hin, heq⟩ | ⟨-, heq⟩
      · rw [show splice _ (s.node i).log.elems _ _ = _ from heq]
        exact hin
      · rw [show splice _ (s.node i).log.elems _ _ = _ from heq]
    have hMlen : args.leaderCommit < M.length := by
      have := hM.length_eq
      have := hann.within
      omega
    have hlen : args.leaderCommit < ((s.node i).appendEntries args).1.log.len :=
      hMlen.trans_le hMlog.length_le
    have hcommit : ((s.node i).appendEntries args).1.commitIndex = args.leaderCommit := by
      rw [hindex, if_pos hlate]
      omega
    refine ⟨⟨hcommit ▸ hlen, ?_⟩, committedLog_prefix hkeep (hcommit ▸ hlate.le)⟩
    have htake : ((s.node i).appendEntries args).1.committedLog =
        L'.take (args.leaderCommit + 1) := by
      obtain ⟨R, hR⟩ := hMlog
      obtain ⟨R', hR'⟩ := hpre
      rw [committedLog, hcommit, ← hR, ← hR', List.take_append_of_le_length hMlen,
        List.take_append_of_le_length hMlen]
    rw [htake, hterm]
    exact hcommitted.mono hled hacc le_rfl
  · have hcommit : ((s.node i).appendEntries args).1.commitIndex = (s.node i).commitIndex := by
      rw [hindex, if_neg hlate]
    refine ⟨hsafe.keep hled hacc (hterm ▸ haccepts.1) hkeep hcommit,
      committedLog_prefix hkeep hcommit.ge⟩

/-! ## One step -/

variable {ev : Event} {p : Proc} {out : List Message} {book'' : VoteBook String}

/-- The member that takes the step. -/
theorem CommitInv.safe_mover (hnd : members.Nodup) (h : CommitInv members base s book A acc)
    (h' : CommitInv members base (s.put i p out) book' A' acc') (hled : A.Le A')
    (hacc : ∀ q T, acc q T ≤ acc' q T) (hm : Moved members s i ev p out book book'')
    (hplain : ev.plain = true) (hsafe : SafeInv members K (s.view book A acc) s)
    (hK : K <+: p.node.log.elems) :
    CommitSafe members K ((s.put i p out).view book' A' acc') p.node ∧
      (s.node i).committedLog <+: p.node.committedLog := by
  have hi := hm.mem
  have hself : (s.put i p out).node i = p.node := Cluster.put_node_self ..
  have hmove := hm.move
  have hsame := hm.same
  have heffect := (Proc.step_nodeOp hm.step).commitEffect
  rw [← hself] at hmove hsame heffect hK ⊢
  cases heffect with
  | stay hcommit hlog =>
    have hkeep := (committedLog_prefix_log (s.node i)).trans hlog
    exact ⟨(hsafe.member i hi).keep hled hacc hmove.term_le hkeep hcommit,
      committedLog_prefix hkeep hcommit.ge⟩
  | reply c reply hnode => exact h'.safe_reply hled hacc hi hmove (hsafe.member i hi) hnode
  | accept caller id args hev haccepts hnode =>
    subst hev
    have hmsg := (hm.delivered _ rfl).2
    exact h.safe_accept hled hacc hi (hsafe.member i hi) hmsg
      (hsafe.request caller id i args hmsg) haccepts hnode hK
  | alone topic partition data hlead hpeers hnode =>
    exact h'.safe_alone hnd hi hsame (hsafe.member i hi) hlead hpeers hnode
  | snapshot caller id args hev =>
    subst hev
    cases hplain
  | reboot hev => exact absurd hev (Event.not_restarts_of_plain hplain)

omit [GrowthPolicy] in
/-- A new request says what its leader has committed, and carries all of the leader's log. -/
theorem sendOutcome_commit {r : RaftNode} {peer : String} {id : ℕ} {c : AppendCall}
    (h : r.sendOutcome peer id = .request c) :
    c.leaderCommit = r.commitIndex ∧ c.prevLogIndex + c.entries.len + 1 = r.log.len := by
  obtain ⟨-, -, -, hprev, hwin, -, -⟩ := sendOutcome_request h
  constructor
  · unfold sendOutcome at h
    dsimp only at h
    split at h
    · cases h
    split at h
    · cases h
    · injection h with h
      rw [← h]
  · rw [hwin]
    show c.prevLogIndex + (r.log.len - (c.prevLogIndex + 1)) + 1 = r.log.len
    omega

/-- The calls of the member that takes the step, and the requests it sends. -/
theorem CommitInv.announced_step (h : CommitInv members base s book A acc)
    (hm : Moved members s i ev p out book book'') (hplain : ev.plain = true)
    (hsafe : SafeInv members K (s.view book A acc) s) :
    (∀ c ∈ p.appends, Announced members K (s.view book A acc) c.term
        (c.prevLogIndex + c.entries.len) c.leaderCommit) ∧
      ∀ c id peer args, Message.appendRequest c id peer args ∈ out →
        Announced members K (s.view book A acc) args.term
          (args.prevLogIndex + args.entries.length) args.leaderCommit := by
  have hold := hsafe.call i hm.mem
  cases hm.effect with
  | quiet _ happ _ hout =>
    exact ⟨fun c hc => hold c (happ hc), fun c id peer args hmsg => (hout _ hmsg).elim⟩
  | append e _ _ _ _ _ happ =>
    refine ⟨fun c hc => ?_, by simp⟩
    rw [happ] at hc
    exact hold c hc
  | send peer c _ hlead hc _ _ _ happ =>
    refine ⟨fun c' hc' => ?_, by simp⟩
    rw [happ] at hc'
    rcases List.mem_append.mp hc' with hc' | hc'
    · exact hold c' hc'
    · obtain rfl := List.mem_singleton.mp hc'
      -- a new request announces the commit index of its leader
      obtain ⟨hcommit, hlast⟩ := sendOutcome_commit hc
      obtain ⟨-, -, hterm, -⟩ := sendOutcome_request hc
      obtain ⟨hbound, hcommitted⟩ := hsafe.member i hm.mem
      rw [hcommit, hterm]
      refine ⟨?_, i, _, (h.log.member i hm.mem).lead hlead, hbound, hcommitted⟩
      change (s.node i).commitIndex < (s.procs i).node.log.len at hbound
      change (s.node i).commitIndex ≤ _
      omega
  | marshal c hc hsent =>
    refine ⟨fun c' hc' => ?_, fun caller id peer args hmsg => ?_⟩
    · obtain ⟨c₀, hc₀, rfl⟩ := List.mem_map.mp hc'
      split
      · exact hold c₀ hc₀
      · exact hold c₀ hc₀
    · injection List.mem_singleton.mp hmsg with _ _ _ hargs
      subst hargs
      -- what is marshalled is as long as when it was built
      have hlen := ((h.log.member i hm.mem).call c hc).length hsent
      show Announced members K _ c.term
        (c.prevLogIndex + ((s.procs i).node.log.read c.entries).length) c.leaderCommit
      rw [hlen]
      exact hold c hc
  | accept caller id args => exact ⟨hold, by simp⟩
  | snapshot caller id args hev =>
    subst hev
    cases hplain
  | joint hjoint => exact absurd hjoint hm.not_joint
  | reboot hev => exact absurd hev (Event.not_restarts_of_plain hplain)

/-- **One step** keeps the invariant, and nobody takes a commit back. -/
theorem CommitInv.safe_step (hnd : members.Nodup) (h : CommitInv members base s book A acc)
    (h' : CommitInv members base (s.put i p out) book' A' acc') (hled : A.Le A')
    (hacc : ∀ q T, acc q T ≤ acc' q T) (hm : Moved members s i ev p out book book'')
    (hplain : ev.plain = true) (hsafe : SafeInv members K (s.view book A acc) s)
    (hK : ∀ j ∈ members, K <+: ((s.put i p out).node j).log.elems) :
    SafeInv members K ((s.put i p out).view book' A' acc') (s.put i p out) ∧
      ∀ j, (s.node j).committedLog <+: ((s.put i p out).node j).committedLog := by
  have hKi := hK i hm.mem
  rw [Cluster.put_node_self] at hKi
  obtain ⟨hmover, hgrows⟩ := h.safe_mover hnd h' hled hacc hm hplain hsafe hKi
  obtain ⟨hcalls, hreqs⟩ := h.announced_step hm hplain hsafe
  have happlied : p.node.lastApplied ≤ p.node.commitIndex := by
    have hle := (Proc.step_nodeOp hm.step).lastApplied_le hplain
    have hold := hsafe.applied i hm.mem
    have hlen := hgrows.length_le
    rw [length_committedLog (hsafe.member i hm.mem).bound, length_committedLog hmover.bound] at hlen
    change p.node.lastApplied ≤ max (s.node i).lastApplied p.node.commitIndex at hle
    omega
  -- the member that moves as above, the others as before
  constructor
  · constructor
    · refine s.forall_put (P := fun j q => j ∈ members → CommitSafe members K _ q.node) i p out
        (fun _ => hmover) fun j _ hj => ?_
      exact (hsafe.member j hj).keep hled hacc le_rfl (committedLog_prefix_log _) rfl
    · exact s.forall_put (P := fun j q => j ∈ members → q.node.lastApplied ≤ q.node.commitIndex)
        i p out (fun _ => happlied) fun j _ hj => hsafe.applied j hj
    · exact s.forall_put
        (P := fun j q => j ∈ members → ∀ c ∈ q.appends, Announced members K _ c.term
          (c.prevLogIndex + c.entries.len) c.leaderCommit) i p out
        (fun _ c hc => (hcalls c hc).mono hled hacc)
        fun j _ hj c hc => (hsafe.call j hj c hc).mono hled hacc
    · intro c id peer args hmsg
      rcases List.mem_append.mp hmsg with hmsg | hmsg
      · exact (hsafe.request c id peer args hmsg).mono hled hacc
      · exact (hreqs c id peer args hmsg).mono hled hacc
  · exact s.forall_put (P := fun j q => (s.node j).committedLog <+: q.node.committedLog) i p out
      hgrows fun _ _ => List.prefix_rfl

/-- The member that takes the step sends what it applies. -/
theorem SafeInv.delivered_mover {D : List LogEntry} (hsafe : SafeInv members K V s)
    (hm : Moved members s i ev p out book book'') (hplain : ev.plain = true)
    (hbound : p.node.lastApplied < p.node.log.len)
    (hgrows : (s.node i).committedLog <+: p.node.committedLog)
    (hd : DeliveredFrom D (s.node i)) : DeliveredFrom D p.node := by
  have hnext : (s.procs i).next ev = some p := by
    rw [Proc.next, hm.step]
    rfl
  -- the applied part is committed, so a merge keeps it
  have hmerge : ∀ c id args, ev = .appendEntries c id args → (s.node i).Accepts args →
      ((s.node i).observeTerm args.term).MergesBehind args := by
    rintro c id args rfl haccepts
    have hnode : p.node = ((s.node i).appendEntries args).1 := by
      cases Proc.step_cases hm.step with
      | appendEntries => rfl
    rw [MergesBehind, observeTerm_log, lastApplied_of_views (views_observeTerm _ _),
      ← haccepts.log, ← hnode]
    refine List.IsPrefix.trans ?_ (hgrows.trans (committedLog_prefix_log _))
    exact List.take_prefix_take_left (Nat.succ_le_succ (hsafe.applied i hm.mem))
  rcases (viewRule_deliveredFrom D).next (show DeliveredFrom D (s.procs i).node from hd) hnext
    (Event.not_restarts_of_plain hplain) (by rintro c id args rfl; cases hplain) hmerge
    (fun r _ => appliesAll_true _ r) with hgood | ⟨-, r, -, hend, hnode⟩
  · exact hgood
  · -- there is an entry at the last applied index
    rw [hnode] at hbound
    exact absurd (List.getElem?_eq_none_iff.mp hend) (not_le.mpr hbound)

end step

/-! ## Runs -/

/-- A prefix that goes beyond index `n` shows the same data entries up to `n`. -/
theorem dataEntries_of_isPrefix {L : List LogEntry} (h : K <+: L) {n : ℕ} (hn : n < K.length) :
    dataEntries L n = dataEntries K n := by
  obtain ⟨R, rfl⟩ := h
  exact dataEntries_append hn R

section runs

variable [GrowthPolicy]

/-- The members and the files they start on, as leader completeness asks for them; and whatever a
member has committed is in `common`, which all logs begin with. -/
structure Start where
  members : List String
  dataDir : String → String
  disk : String → Disk
  ok : StartOk members dataDir disk
  config : ConfigOk members dataDir disk
  common : List LogEntry
  within : ∀ i ∈ members, common <+: (newRaftNode i members (dataDir i) (disk i)).log.elems
  committed : ∀ i ∈ members,
    (newRaftNode i members (dataDir i) (disk i)).commitIndex < common.length
  applied : ∀ i ∈ members, (newRaftNode i members (dataDir i) (disk i)).lastApplied ≤
    (newRaftNode i members (dataDir i) (disk i)).commitIndex

namespace Start

def node (st : Start) (i : String) : RaftNode := newRaftNode i st.members (st.dataDir i) (st.disk i)

def boot (st : Start) : Cluster := Cluster.boot st.members st.dataDir st.disk

theorem lastApplied_lt (st : Start) {i : String} (hi : i ∈ st.members) :
    (st.node i).lastApplied < st.common.length :=
  (st.applied i hi).trans_lt (st.committed i hi)

end Start

section start

variable (st : Start)

/-- `C` is the log of the cluster: every member has committed a prefix of it, has applied at most
that, and has sent on `applyCh` the data entries from where its files left off up to there. -/
structure Replicates (C : List LogEntry) (s : Cluster) : Prop where
  committed : ∀ i ∈ st.members, (s.node i).commitIndex < (s.node i).log.len ∧
    (s.node i).committedLog <+: C
  applied : ∀ i ∈ st.members, (s.node i).lastApplied ≤ (s.node i).commitIndex
  delivered : ∀ i ∈ st.members, ∃ sent, (s.node i).applyCh = some sent ∧
    dataEntries C (st.node i).lastApplied ++ sent = dataEntries C (s.node i).lastApplied

/-- What a run keeps: `C` is committed, and everything the members have committed is in it. -/
structure OneLog (C : List LogEntry) (s : Cluster) : Prop where
  reached : Run Cluster.step Cluster.Careful st.boot s
  start : st.common <+: C
  safe : ∃ base book A acc t, CommitInv st.members base s book A acc ∧
    SafeInv st.members st.common (s.view book A acc) s ∧
    (s.view book A acc).Committed LogEntry.term st.members st.common t C
  held : ∀ i ∈ st.members, (s.node i).committedLog <+: C
  delivered : ∀ i ∈ st.members, DeliveredFrom
    (dataEntries st.common (st.node i).lastApplied) (s.node i)

end start

variable {st : Start} {C : List LogEntry} {s s' : Cluster}

theorem oneLog_boot (st : Start) : OneLog st st.common st.boot := by
  obtain ⟨base, hboot⟩ := commitInv_boot st.ok st.config
  have hheld : ∀ i ∈ st.members, (st.node i).committedLog <+: st.common := by
    intro i hi
    obtain ⟨R, hR⟩ := st.within i hi
    rw [committedLog, Start.node, ← hR, List.take_append_of_le_length (st.committed i hi)]
    exact List.take_prefix _ _
  refine ⟨.refl, List.prefix_rfl, ⟨base, _, _, _, 0, hboot, ?_, Or.inl List.prefix_rfl⟩, hheld,
    fun i hi => ⟨⟨[], newRaftNode_applyCh .., ?_⟩, ?_⟩⟩
  · refine ⟨fun i hi => ⟨?_, Or.inl (hheld i hi)⟩, st.applied, ?_, ?_⟩
    · exact (st.committed i hi).trans_le (st.within i hi).length_le
    · rintro i _ c ⟨⟩
    · rintro c id peer args ⟨⟩
  · rw [List.append_nil]
    exact (dataEntries_of_isPrefix (st.within i hi) (st.lastApplied_lt hi)).symm
  · exact (st.lastApplied_lt hi).trans_le (st.within i hi).length_le

/-- **One step**: the committed log stays or is now what the member has committed. -/
theorem OneLog.step (h : OneLog st C s) {l : String × Event} (hg : s.Completing l s')
    (hst : s.step l = some s') : ∃ C', C <+: C' ∧ OneLog st C' s' := by
  obtain ⟨base, book, A, acc, t, hinv, hsafe, hcommitted⟩ := h.safe
  obtain ⟨book', A', acc', hacc, hled, hinv'⟩ := hinv.step st.ok.nodup st.ok.named hg hst
  have hreached := h.reached.tail hg.careful hst
  have hK := start_kept st.ok st.within hreached
  obtain ⟨p, out, book'', rfl, hm⟩ := hinv.log.moved st.ok.nodup st.ok.named hg.careful hst
  obtain ⟨i, ev⟩ := l
  have hplain : ev.plain = true := hg.careful.1.2
  obtain ⟨hsafe', hgrows⟩ := hinv.safe_step st.ok.nodup hinv' hled hacc hm hplain hsafe hK
  have hmover := hsafe'.member i hm.mem
  have hdelivered : ∀ j ∈ st.members, DeliveredFrom
      (dataEntries st.common (st.node j).lastApplied) ((s.put i p out).node j) := by
    refine s.forall_put (P := fun j q => j ∈ st.members → DeliveredFrom
      (dataEntries st.common (st.node j).lastApplied) q.node) i p out
      (fun hi => ?_) fun j _ hj => h.delivered j hj
    have happlied := hsafe'.applied i hi
    have hgrow := hgrows i
    rw [Cluster.put_node_self] at hmover happlied hgrow
    exact hsafe.delivered_mover hm hplain (happlied.trans_lt hmover.bound) hgrow (h.delivered i hi)
  have hC : ((s.put i p out).view book' A' acc').Committed LogEntry.term st.members st.common t C :=
    hcommitted.mono hled hacc le_rfl
  -- one of the two is a front part of the other
  rcases hinv'.view.committed_total hK hmover.committed hC with hle | hge
  · refine ⟨C, List.prefix_rfl, hreached, h.start, ⟨base, book', A', acc', t, hinv', hsafe', hC⟩,
      ?_, hdelivered⟩
    exact s.forall_put (P := fun j q => j ∈ st.members → q.node.committedLog <+: C) i p out
      (fun _ => Cluster.put_node_self s i p out ▸ hle) fun j _ hj => h.held j hj
  · refine ⟨_, hge, hreached, h.start.trans hge,
      ⟨base, book', A', acc', _, hinv', hsafe', hmover.committed⟩, ?_, hdelivered⟩
    refine s.forall_put (P := fun j q => j ∈ st.members →
      q.node.committedLog <+: ((s.put i p out).node i).committedLog) i p out
      (fun _ => ?_) fun j _ hj => (h.held j hj).trans hge
    rw [Cluster.put_node_self]

theorem OneLog.run (h : OneLog st C s) (hrun : Run Cluster.step Cluster.Completing s s') :
    ∃ C', C <+: C' ∧ OneLog st C' s' := by
  refine hrun.invariant (P := fun t => ∃ C', C <+: C' ∧ OneLog st C' t) ⟨C, List.prefix_rfl, h⟩ ?_
  rintro t l u ⟨C', hpre, h'⟩ hg hst
  obtain ⟨C'', hpre', h''⟩ := h'.step hg hst
  exact ⟨C'', hpre.trans hpre', h''⟩

theorem OneLog.replicates (h : OneLog st C s) : Replicates st C s := by
  obtain ⟨base, book, A, acc, t, -, hsafe, -⟩ := h.safe
  refine ⟨fun i hi => ⟨(hsafe.member i hi).bound, h.held i hi⟩, hsafe.applied, fun i hi => ?_⟩
  obtain ⟨sent, hch, heq⟩ := (h.delivered i hi).sent
  refine ⟨sent, hch, ?_⟩
  -- what the member has applied it has committed, and so it is in `C`
  have hlen := length_committedLog (hsafe.member i hi).bound
  have hlast := hsafe.applied i hi
  rw [dataEntries_of_isPrefix h.start (st.lastApplied_lt hi), heq,
    dataEntries_of_isPrefix (h.held i hi) (by omega)]
  exact dataEntries_of_isPrefix (committedLog_prefix_log _) (by omega)

end runs

section traces

open scoped GrowthPolicy

/-- Three members with 999 entries in their files, one with another one. -/
def threeStart : Start where
  members := ["a", "b", "c"]
  dataDir := fun _ => "data"
  disk := threeDisks
  ok := startOk_threeDisks
  config := configOk_threeDisks
  common := sentinel :: history 999
  within := by
    intro i _
    unfold threeDisks
    rw [(newRaftNode_savedDisk i _ (show "data" ≠ "" by decide) 1 999 _).1]
    refine (List.prefix_cons_inj _).mpr ?_
    split
    · exact history_prefix (by decide)
    · exact List.prefix_rfl
  committed := by decide +kernel
  applied := by decide +kernel

end traces

end DistributedMQ.Raft
