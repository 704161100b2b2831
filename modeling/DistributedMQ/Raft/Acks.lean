import DistributedMQ.Raft.LogMatching
import DistributedMQ.Raft.MatchIndex

/-!
# Acknowledgements

An `AppendEntries` call claims something for its peer, a request on the wire
makes the claim of its call, and a successful reply lets the leader record it in
`matchIndex`. What an acknowledgement *stands for* is left open here: a relation
`R leader peer term index`.

- `CallStep`: what a step does to the calls of its process
  (`LogInv.callStep`); calls are not confused with each other.
- `AckInv members s R`: whatever a leader has recorded and whatever a successful
  reply on the wire acknowledges satisfies `R`.
- `AckInv.step`: a step keeps that, if the successful replies it sends satisfy
  `R` as well and replies of earlier terms are dropped
  (`Cluster.RepliesCurrent`).
-/

namespace DistributedMQ.Raft

open RaftNode Machine TermLog

/-- The successful reply an event handles. -/
def Event.successId : Event → Option ℕ
  | .appendReply id reply => if reply.success then some id else none
  | _ => none

/-- A leader counts only replies to requests of its current term. -/
def Cluster.RepliesCurrent (s : Cluster) (l : String × Event) : Prop :=
  ∀ id ∈ l.2.successId, (s.node l.1).state = .leader →
    ∀ c ∈ (s.procs l.1).appends, c.id = id → c.term = (s.node l.1).currentTerm

instance (s : Cluster) (l : String × Event) : Decidable (s.RepliesCurrent l) :=
  inferInstanceAs (Decidable (∀ id ∈ l.2.successId, (s.node l.1).state = .leader →
    ∀ c ∈ (s.procs l.1).appends, c.id = id → c.term = (s.node l.1).currentTerm))

/-! ## Calls -/

/-- What a call claims for its peer if it succeeds: the peer has accepted, in
the call's term, everything up to the last entry sent. -/
def AppendCall.claim (c : AppendCall) : String × ℕ × ℕ :=
  (c.peer, c.term, c.prevLogIndex + c.entries.len)

/-- A request on the wire makes the claim of its call, if that is still there. -/
def Answers (p : Proc) (id : ℕ) (peer : String) (args : AppendEntriesArgs) : Prop :=
  id < p.nextId ∧ ∀ c ∈ p.appends, c.id = id →
    c.claim = (peer, args.term, args.prevLogIndex + args.entries.length)

/-- Calls have numbers of their own and go to peers. -/
structure Proc.CallsOk (p : Proc) : Prop where
  unique : ∀ c ∈ p.appends, ∀ c' ∈ p.appends, c.id = c'.id → c.claim = c'.claim
  fresh : ∀ c ∈ p.appends, c.id < p.nextId
  peer : ∀ c ∈ p.appends, c.peer ∈ p.node.peers.keys

/-- What a step of member `i` does to its calls. -/
structure CallStep (i : String) (p p' : Proc) (out : List Message) : Prop where
  ok : p'.CallsOk
  grows : p.nextId ≤ p'.nextId
  kept : ∀ c ∈ p'.appends, c.id < p.nextId →
    ∃ c₀ ∈ p.appends, c₀.id = c.id ∧ c₀.claim = c.claim
  request : ∀ c id peer args, Message.appendRequest c id peer args ∈ out →
    c = i ∧ Answers p' id peer args

/-- The calls of a step that adds none are the old ones, up to `sent`. -/
def KeepsCalls (p p' : Proc) : Prop :=
  ∀ c ∈ p'.appends, ∃ c₀ ∈ p.appends, c₀.id = c.id ∧ c₀.claim = c.claim ∧ c₀.peer = c.peer

theorem keepsCalls_of_subset {p p' : Proc} (h : p'.appends ⊆ p.appends) : KeepsCalls p p' :=
  fun c hc => ⟨c, h hc, rfl, rfl, rfl⟩

theorem keepsCalls_markSent (p : Proc) (id : ℕ) :
    KeepsCalls p { p with appends := Proc.markSent p.appends id } := by
  intro c hc
  obtain ⟨c₀, hc₀, rfl⟩ := List.mem_map.mp hc
  refine ⟨c₀, hc₀, ?_⟩
  split
  · exact ⟨rfl, rfl, rfl⟩
  · exact ⟨rfl, rfl, rfl⟩

theorem Proc.CallsOk.of_keeps {p p' : Proc} (h : p.CallsOk) (hkeep : KeepsCalls p p')
    (hid : p.nextId ≤ p'.nextId) (hpeers : p'.node.peers = p.node.peers) : p'.CallsOk where
  unique c hc c' hc' heq := by
    obtain ⟨c₀, hc₀, hid₀, hcl₀, -⟩ := hkeep c hc
    obtain ⟨c₁, hc₁, hid₁, hcl₁, -⟩ := hkeep c' hc'
    rw [← hcl₀, ← hcl₁]
    exact h.unique c₀ hc₀ c₁ hc₁ (by rw [hid₀, hid₁, heq])
  fresh c hc := by
    obtain ⟨c₀, hc₀, hid₀, -, -⟩ := hkeep c hc
    rw [← hid₀]
    exact lt_of_lt_of_le (h.fresh c₀ hc₀) hid
  peer c hc := by
    obtain ⟨c₀, hc₀, -, -, hpeer₀⟩ := hkeep c hc
    rw [← hpeer₀, hpeers]
    exact h.peer c₀ hc₀

/-- A step that adds no call and sends no request. -/
theorem Proc.CallsOk.callStep {p p' : Proc} (h : p.CallsOk) (hkeep : KeepsCalls p p')
    (hid : p.nextId ≤ p'.nextId) (hpeers : p'.node.peers = p.node.peers) {i : String}
    {out : List Message} (hout : ∀ c id peer args, Message.appendRequest c id peer args ∉ out) :
    CallStep i p p' out where
  ok := h.of_keeps hkeep hid hpeers
  grows := hid
  kept c hc _ := by
    obtain ⟨c₀, hc₀, hid₀, hcl₀, -⟩ := hkeep c hc
    exact ⟨c₀, hc₀, hid₀, hcl₀⟩
  request c id peer args hmsg := absurd hmsg (hout c id peer args)

/-- A new call gets a number that no other call has. -/
theorem Proc.CallsOk.send {p p' : Proc} (h : p.CallsOk) {c : AppendCall} (hcid : c.id = p.nextId)
    (hcpeer : c.peer ∈ p.node.peers.keys) (happ : p'.appends = p.appends ++ [c])
    (hid : p'.nextId = p.nextId + 1) (hpeers : p'.node.peers = p.node.peers) {i : String} :
    CallStep i p p' [] := by
  have hcase : ∀ c' ∈ p'.appends, c' ∈ p.appends ∨ c' = c := by
    intro c' hc'
    rw [happ] at hc'
    simpa using hc'
  refine ⟨⟨fun c₁ hc₁ c₂ hc₂ heq => ?_, fun c' hc' => ?_, fun c' hc' => ?_⟩,
    hid ▸ Nat.le_succ _, fun c' hc' hlt => ?_, by simp⟩
  · rcases hcase c₁ hc₁ with h₁ | rfl
    · rcases hcase c₂ hc₂ with h₂ | rfl
      · exact h.unique c₁ h₁ c₂ h₂ heq
      · exact absurd (h.fresh c₁ h₁) (by rw [heq, hcid]; exact lt_irrefl _)
    · rcases hcase c₂ hc₂ with h₂ | rfl
      · exact absurd (h.fresh c₂ h₂) (by rw [← heq, hcid]; exact lt_irrefl _)
      · rfl
  · rw [hid]
    rcases hcase c' hc' with hc' | rfl
    · exact Nat.lt_succ_of_lt (h.fresh c' hc')
    · exact hcid ▸ Nat.lt_succ_self _
  · rw [hpeers]
    rcases hcase c' hc' with hc' | rfl
    · exact h.peer c' hc'
    · exact hcpeer
  · rcases hcase c' hc' with hc' | rfl
    · exact ⟨c', hc', rfl, rfl⟩
    · exact absurd hlt (by rw [hcid]; exact lt_irrefl _)

/-- A request goes out: it makes its call's claim, as long as the window of the
call has its length. -/
theorem Proc.CallsOk.marshal {p : Proc} (h : p.CallsOk) {i : String}
    (hself : p.node.selfAddr = i) {c : AppendCall} (hc : c ∈ p.appends)
    (hlen : (p.node.log.read c.entries).length = c.entries.len) :
    CallStep i p { p with appends := Proc.markSent p.appends c.id }
      [.appendRequest p.node.selfAddr c.id c.peer (p.node.marshal c)] := by
  have hkeep := keepsCalls_markSent p c.id
  refine ⟨h.of_keeps hkeep le_rfl rfl, le_rfl, fun c' hc' _ => ?_,
    fun caller id peer args hmsg => ?_⟩
  · obtain ⟨c₀, hc₀, hid₀, hcl₀, -⟩ := hkeep c' hc'
    exact ⟨c₀, hc₀, hid₀, hcl₀⟩
  · injection List.mem_singleton.mp hmsg with hcaller hid hpeer hargs
    subst hcaller hid hpeer hargs
    refine ⟨hself, h.fresh c hc, fun c' hc' heq => ?_⟩
    obtain ⟨c₀, hc₀, hid₀, hcl₀, -⟩ := hkeep c' hc'
    rw [← hcl₀, h.unique c₀ hc₀ c hc (hid₀.trans heq)]
    show (c.peer, c.term, c.prevLogIndex + c.entries.len) =
      (c.peer, c.term, c.prevLogIndex + (p.node.log.read c.entries).length)
    rw [hlen]

/-- What a request on the wire claims, it still claims after a step. -/
theorem CallStep.answers {i : String} {p p' : Proc} {out : List Message}
    (h : CallStep i p p' out) {id : ℕ} {peer : String} {args : AppendEntriesArgs}
    (ha : Answers p id peer args) : Answers p' id peer args := by
  obtain ⟨hlt, hclaim⟩ := ha
  refine ⟨lt_of_lt_of_le hlt h.grows, fun c hc heq => ?_⟩
  obtain ⟨c₀, hc₀, hid₀, hclaim₀⟩ := h.kept c hc (heq ▸ hlt)
  rw [← hclaim₀]
  exact hclaim c₀ hc₀ (hid₀.trans heq)

/-! ## The invariant -/

/-- What acknowledgements have to do with one member: `R peer term index`. -/
structure AckMember (R : String → ℕ → ℕ → Prop) (p : Proc) : Prop where
  tracks : p.node.Tracks
  calls : p.CallsOk
  acked : p.node.state = .leader → ∀ q m, p.node.matchIndex.lookup q = some m →
    R q p.node.currentTerm m

structure AckInv (members : List String) (s : Cluster) (R : String → String → ℕ → ℕ → Prop) :
    Prop where
  member : ∀ i ∈ members, AckMember (R i) (s.procs i)
  request : ∀ c id peer args, Message.appendRequest c id peer args ∈ s.net →
    Answers (s.procs c) id peer args
  reply : ∀ c id reply, Message.appendReply c id reply ∈ s.net → reply.success = true →
    ∃ peer args, Message.appendRequest c id peer args ∈ s.net ∧
      R c peer args.term (args.prevLogIndex + args.entries.length)

theorem AckMember.mono {R R' : String → ℕ → ℕ → Prop} (hmono : ∀ q T m, R q T m → R' q T m)
    {p : Proc} (h : AckMember R p) : AckMember R' p where
  tracks := h.tracks
  calls := h.calls
  acked hl q m hm := hmono q _ m (h.acked hl q m hm)

/-- A process that has just started has no calls and no acknowledgements. -/
theorem ackInv_boot [GrowthPolicy] {members : List String} (dataDir : String → String)
    (disk : String → Disk) (R : String → String → ℕ → ℕ → Prop) :
    AckInv members (Cluster.boot members dataDir disk) R := by
  refine ⟨fun i _ => ?_, by rintro c id peer args ⟨⟩, by rintro c id reply ⟨⟩⟩
  have hmatch := newRaftNode_matchIndex i members (dataDir i) (disk i)
  refine ⟨fun p hp => ?_, ⟨by rintro c ⟨⟩, by rintro c ⟨⟩, by rintro c ⟨⟩⟩, fun _ q m hq => ?_⟩
  · change p ∈ (newRaftNode i members (dataDir i) (disk i)).matchIndex.keys at hp
    rw [hmatch] at hp
    cases hp
  · change (newRaftNode i members (dataDir i) (disk i)).matchIndex.lookup q = some m at hq
    rw [hmatch] at hq
    cases hq

section step

variable [GrowthPolicy] {members : List String} {base : ℕ} {s : Cluster}
  {book book' : VoteBook String} {A : Archive LogEntry String} {i : String} {ev : Event}
  {p : Proc} {out : List Message} {R R' : String → String → ℕ → ℕ → Prop}

/-- What a careful step does to the calls of its member. -/
theorem LogInv.callStep (h : LogInv members base s book A)
    (hm : Moved members s i ev p out book book') (hplain : ev.plain = true)
    (hok : (s.procs i).CallsOk) : CallStep i (s.procs i) p out := by
  have hpeers : p.node.peers = (s.procs i).node.peers := hm.same.peers
  cases hm.effect with
  | quiet _ happ hid hout =>
    exact hok.callStep (keepsCalls_of_subset happ) hid hpeers
      fun c id peer args hmsg => (hout _ hmsg).elim
  | append e _ _ _ _ _ happ hid =>
    exact hok.callStep (keepsCalls_of_subset fun c hc => happ ▸ hc) (le_of_eq hid.symm) hpeers
      (by simp)
  | send peer c hpeer _ hc _ _ _ happ hid =>
    obtain ⟨hcid, hcpeer, -⟩ := sendOutcome_request hc
    exact hok.send hcid (hcpeer ▸ hpeer) happ hid hpeers
  | marshal c hc hsent =>
    exact hok.marshal (h.vote.member i hm.mem).self hc
      (((h.member i hm.mem).call c hc).length hsent)
  | accept caller id args _ _ =>
    refine hok.callStep ?_ ?_ hpeers (by simp)
    · exact keepsCalls_of_subset fun _ hc => hc
    · exact le_rfl
  | snapshot caller id args hev =>
    subst hev
    cases hplain
  | joint hjoint => exact absurd hjoint hm.not_joint
  | reboot hev => exact absurd hev (Event.not_restarts_of_plain hplain)

/-- A leader's `matchIndex` after a step. -/
theorem AckInv.matched (h : AckInv members s R) (hm : Moved members s i ev p out book book')
    (hplain : ev.plain = true)
    (hsnap : ∀ id reply, ev = .snapshotReply id reply → reply.success = false)
    (hcur : s.RepliesCurrent (i, ev)) (hmono : ∀ a q T m, R a q T m → R' a q T m)
    (hzero : p.node.state = .leader → ∀ q ∈ p.node.peers.keys, R' i q p.node.currentTerm 0) :
    p.node.Tracks ∧ (p.node.state = .leader →
      ∀ q m, p.node.matchIndex.lookup q = some m → R' i q p.node.currentTerm m) := by
  have hmem := h.member i hm.mem
  have hpeers : p.node.peers = (s.node i).peers := hm.same.peers
  cases (Proc.step_nodeOp hm.step).matchEffect with
  | frame hframe hlead =>
    refine ⟨hframe.tracks hmem.tracks, fun hl q m hq => ?_⟩
    -- a value that was there before, or 0
    rcases hframe.value q m hq with rfl | hold
    · exact hzero hl q (hframe.tracks hmem.tracks q (mem_keys_of_lookup hq))
    · rw [hm.move.lead_term (hlead hl) hl]
      exact hmono i q _ m (hmem.acked (hlead hl) q m hold)
  | reset _ hreset =>
    obtain ⟨htracks, hall⟩ := hreset hmem.tracks
    refine ⟨htracks, fun hl q m hq => ?_⟩
    -- a new leader has only zeros
    rw [hall q m hq]
    exact hzero hl q (htracks q (mem_keys_of_lookup hq))
  | ack c reply hev hc hlead hsucc hr =>
    subst hev
    have hmatch : p.node.matchIndex =
        (s.node i).matchIndex.insert c.peer (c.prevLogIndex + c.entries.len) := by
      rw [hr, updateCommitIndex_matchIndex]
      rfl
    refine ⟨fun q hq => ?_, fun hl q m hq => ?_⟩
    · rw [hmatch, ← AList.mem_keys, AList.mem_insert] at hq
      rw [hpeers]
      rcases hq with rfl | hq
      · exact hmem.calls.peer c hc
      · exact hmem.tracks q (AList.mem_keys.mp hq)
    · rw [hm.move.lead_term hlead hl]
      rw [hmatch] at hq
      refine hmono i q _ m ?_
      by_cases hqc : q = c.peer
      · -- the new acknowledgement answers a request of the current term
        subst hqc
        obtain rfl : c.prevLogIndex + c.entries.len = m :=
          Option.some.inj ((AList.lookup_insert _).symm.trans hq)
        obtain ⟨peer, args, hargs, hR⟩ := h.reply i c.id reply (hm.delivered _ rfl).2 hsucc
        have hclaim := (h.request i c.id peer args hargs).2 c hc rfl
        obtain ⟨rfl, hterm, hlast⟩ : c.peer = peer ∧ c.term = args.term ∧
            c.prevLogIndex + c.entries.len = args.prevLogIndex + args.entries.length := by
          simpa [AppendCall.claim] using hclaim
        have hnow : c.term = (s.node i).currentTerm :=
          hcur c.id (by simp [Event.successId, hsucc]) hlead c hc rfl
        rw [hlast, ← hnow, hterm]
        exact hR
      · rw [AList.lookup_insert_ne hqc] at hq
        exact hmem.acked hlead q m hq
  | snapshot caller id args hev =>
    subst hev
    cases hplain
  | snapshotReply id reply hev hsucc =>
    rw [hsnap id reply hev] at hsucc
    cases hsucc
  | reboot hev => exact absurd hev (Event.not_restarts_of_plain hplain)

/-- **A step** keeps acknowledgements sound if its own replies are. -/
theorem AckInv.step (h : AckInv members s R) (hlog : LogInv members base s book A)
    (hm : Moved members s i ev p out book book') (hplain : ev.plain = true)
    (hsnap : ∀ id reply, ev = .snapshotReply id reply → reply.success = false)
    (hcur : s.RepliesCurrent (i, ev)) (hmono : ∀ a q T m, R a q T m → R' a q T m)
    (hzero : p.node.state = .leader → ∀ q ∈ p.node.peers.keys, R' i q p.node.currentTerm 0)
    (hout : ∀ c id reply, Message.appendReply c id reply ∈ out → reply.success = true →
      ∃ peer args, Message.appendRequest c id peer args ∈ s.net ∧
        R' c peer args.term (args.prevLogIndex + args.entries.length)) :
    AckInv members (s.put i p out) R' := by
  have hcall := hlog.callStep hm hplain (h.member i hm.mem).calls
  obtain ⟨htracks, hacked⟩ := h.matched hm hplain hsnap hcur hmono hzero
  refine ⟨?_, fun c id peer args hmsg => ?_, fun c id reply hmsg hsucc => ?_⟩
  · exact s.forall_put (P := fun j q => j ∈ members → AckMember (R' j) q) i p out
      (fun _ => ⟨htracks, hcall.ok, hacked⟩) fun j _ hj => (h.member j hj).mono (hmono j)
  · rcases List.mem_append.mp hmsg with hmsg | hmsg
    · refine s.forall_put (P := fun j q => Answers (s.procs j) id peer args →
        Answers q id peer args) i p out hcall.answers (fun _ _ ha => ha) c ?_
      exact h.request c id peer args hmsg
    · obtain ⟨rfl, hans⟩ := hcall.request c id peer args hmsg
      rw [Cluster.put_procs_self]
      exact hans
  · rcases List.mem_append.mp hmsg with hmsg | hmsg
    · obtain ⟨peer, args, hargs, hR⟩ := h.reply c id reply hmsg hsucc
      exact ⟨peer, args, List.mem_append_left _ hargs, hmono _ _ _ _ hR⟩
    · obtain ⟨peer, args, hargs, hR⟩ := hout c id reply hmsg hsucc
      exact ⟨peer, args, List.mem_append_left _ hargs, hR⟩

end step

end DistributedMQ.Raft
