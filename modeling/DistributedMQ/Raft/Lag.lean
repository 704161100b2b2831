import DistributedMQ.Raft.Backtracking

/-!
# How far a follower is behind (`raft.go` lines 309–333 and 367–404)

Twice the leader asks how far a follower is behind, and both times it computes the difference of
two `uint64`s. Where the second one is larger the difference wraps around to a number near
`2 ^ 64`.

- `snapshot_by_lag_iff`: `sendAppendEntries` compares `nextIndex` with `len(r.log) - 1000`. It
  chooses by the number of missing entries iff the log has 1000 entries.
- `isr_by_lag_iff`: `checkISR` takes `commitIndex - matchIndex`. The followers it keeps are those
  that are near enough iff none of them has acknowledged more than is committed (by less than a
  number near `2 ^ 64`). `isr_drops_ahead` is a run in which the follower that is ahead is
  dropped and the one that has nothing stays.
-/

namespace DistributedMQ

theorem sub64_of_le {a b : ℕ} (h : b ≤ a) (ha : a < size64) : sub64 a b = a - b := by
  have heq : a + size64 - b = a - b + size64 := by omega
  rw [sub64, heq, Nat.add_mod_right]
  exact Nat.mod_eq_of_lt (by omega)

theorem sub64_of_lt {a b : ℕ} (h : a < b) (hb : b < size64) : sub64 a b = a + size64 - b :=
  Nat.mod_eq_of_lt (by omega)

namespace Raft

open Machine

/-! ## Snapshots -/

/-- The leader sends a snapshot iff the peer lacks more than 1000 entries, and otherwise all
entries from `nextIndex` on. -/
def RaftNode.ChoosesByLag (r : RaftNode) (peer : String) (id : ℕ) : Prop :=
  ((r.sendAppendEntries peer id).2 = .snapshot ↔ r.nextIndex.get peer 0 + 1000 < r.log.len) ∧
    (¬ r.nextIndex.get peer 0 + 1000 < r.log.len →
      ∃ c, (r.sendAppendEntries peer id).2 = .request c ∧
        c.prevLogIndex = r.nextIndex.get peer 0 - 1 ∧
        r.log.read c.entries = r.log.elems.drop (r.nextIndex.get peer 0))

namespace RaftNode

variable {r : RaftNode} {peer : String}

theorem nextIdx_eq (hpos : 1 ≤ r.nextIndex.get peer 0) :
    r.nextIdx peer = r.nextIndex.get peer 0 := by
  rw [nextIdx, if_neg (by omega)]

theorem sendAppendEntries_snapshot (hleader : r.state = .leader)
    (hfar : r.nextIdx peer < sub64 r.log.len 1000) (id : ℕ) :
    (r.sendAppendEntries peer id).2 = .snapshot := by
  rw [sendAppendEntries, if_pos hleader]
  dsimp only [sendOutcome]
  rw [if_pos hfar]

/-- The request has all entries from `nextIndex` on. -/
theorem read_appendCall (r : RaftNode) (peer : String) (id : ℕ) :
    r.log.read (r.appendCall peer id).entries = r.log.elems.drop (r.nextIdx peer) :=
  GoSlice.read_view r.log (r.nextIdx peer)

end RaftNode

/-- **Snapshots.** For every length of the log and every `nextIndex` from 1 up to it the branch is
chosen by the lag iff the log has 1000 entries. In a shorter one `len(r.log) - 1000` wraps. -/
theorem snapshot_by_lag_iff {r : RaftNode} {peer : String} (hleader : r.state = .leader)
    (hpos : 1 ≤ r.nextIndex.get peer 0) (hle : r.nextIndex.get peer 0 ≤ r.log.len)
    (hlen : r.log.len < size64) (id : ℕ) :
    r.ChoosesByLag peer id ↔ 1000 ≤ r.log.len := by
  have hnext := RaftNode.nextIdx_eq hpos
  constructor
  · rintro ⟨hsnapshot, -⟩
    by_contra hshort
    -- the subtraction wraps, and every peer looks far behind
    have hsub : sub64 r.log.len 1000 = r.log.len + size64 - 1000 :=
      sub64_of_lt (by omega) (by decide)
    have hsize : 1000 < size64 := by decide
    have hfar : r.nextIdx peer < sub64 r.log.len 1000 := by
      rw [hnext, hsub]
      omega
    have hlag := hsnapshot.mp (RaftNode.sendAppendEntries_snapshot hleader hfar id)
    omega
  · intro hlong
    have hsub : sub64 r.log.len 1000 = r.log.len - 1000 := sub64_of_le hlong hlen
    by_cases hfar : r.nextIdx peer < sub64 r.log.len 1000
    · have hlag : r.nextIndex.get peer 0 + 1000 < r.log.len := by
        rw [hnext, hsub] at hfar
        omega
      exact ⟨iff_of_true (RaftNode.sendAppendEntries_snapshot hleader hfar id) hlag,
        fun hnear => absurd hlag hnear⟩
    · have hlag : ¬ r.nextIndex.get peer 0 + 1000 < r.log.len := by
        rw [hnext, hsub] at hfar
        omega
      have hsend := RaftNode.sendAppendEntries_eq hleader (hnext ▸ hle) hfar id
      refine ⟨iff_of_false ?_ hlag, fun _ => ⟨r.appendCall peer id, by rw [hsend], ?_, ?_⟩⟩
      · rw [hsend]
        intro heq
        cases heq
      · show r.nextIdx peer - 1 = _
        rw [hnext]
      · rw [RaftNode.read_appendCall, hnext]

/-- A leader of 1500 entries whose follower has all but 100 of them. -/
def longLeader : RaftNode :=
  { blankNode "a" "" {} with
    state := .leader
    log := .ofList (List.replicate 1500 sentinel)
    nextIndex := AList.insert "b" 1400 ∅ }

theorem snapshot_by_lag_iff_long : longLeader.ChoosesByLag "b" 0 := by
  have hlen : longLeader.log.len = 1500 := List.length_replicate
  have hnext : longLeader.nextIndex.get "b" 0 = 1400 := GoMap.get_insert_self _ _ _ _
  refine (snapshot_by_lag_iff rfl ?_ ?_ ?_ 0).mpr ?_
  · rw [hnext]
    omega
  · rw [hnext, hlen]
    omega
  · rw [hlen]
    decide
  · rw [hlen]
    omega

/-- A leader with two entries sends a snapshot to a follower that has both. -/
theorem snapshot_without_lag :
    ({ nodeWith leaderLog with
        state := .leader, nextIndex := AList.insert "b" 3 ∅ }.sendAppendEntries "b" 0).2 =
      .snapshot :=
  RaftNode.sendAppendEntries_snapshot rfl (by decide +kernel) 0

/-! ## In-sync replicas -/

namespace RaftNode

/-- The followers in the ISR are those whose lag, an integer, is at most `maxLag`. -/
def IsrByLag (r : RaftNode) : Prop :=
  ∀ p ∈ r.peers.keys,
    (r.checkISR.isr.get p false = true ↔
      (r.commitIndex : ℤ) - r.matchIndex.get p 0 ≤ r.maxLag)

theorem get_foldl_insert {V : Type} (f : String → V) (z : V) (ks : List String)
    (m : GoMap String V) (k : String) :
    GoMap.get (ks.foldl (fun m k => m.insert k (f k)) m) k z =
      if k ∈ ks then f k else m.get k z := by
  induction ks generalizing m with
  | nil => rfl
  | cons k' ks ih =>
    rw [List.foldl_cons, ih]
    by_cases hmem : k ∈ ks
    · rw [if_pos hmem, if_pos (List.mem_cons_of_mem k' hmem)]
    · rw [if_neg hmem]
      by_cases heq : k = k'
      · rw [if_pos (heq ▸ List.mem_cons_self), heq, GoMap.get_insert_self]
      · rw [GoMap.get_insert_ne _ heq, if_neg fun h => (List.mem_cons.mp h).elim heq hmem]

theorem isr_checkISR {r : RaftNode} (hleader : r.state = .leader) {p : String}
    (hp : p ∈ r.peers.keys) :
    r.checkISR.isr.get p false = true ↔
      sub64 r.commitIndex (r.matchIndex.get p 0) ≤ r.maxLag := by
  rw [checkISR, if_pos hleader]
  dsimp only
  rw [get_foldl_insert, if_pos hp, decide_eq_true_iff]

end RaftNode

/-- What `checkISR` decides about one follower. -/
theorem lag64_iff {c m maxLag : ℕ} (hc : c < size64) (hm : m < size64) :
    (sub64 c m ≤ maxLag ↔ (c : ℤ) - m ≤ maxLag) ↔ m ≤ c ∨ c + size64 ≤ m + maxLag := by
  rcases Nat.lt_or_ge c m with hlt | hge
  · have hlag : (c : ℤ) - m ≤ maxLag := by omega
    rw [sub64_of_lt hlt hm, iff_true_right hlag]
    omega
  · rw [sub64_of_le hge hc]
    refine iff_of_true ?_ (Or.inl hge)
    omega

/-- **In-sync replicas.** For every leader, all counters being `uint64`s, `checkISR` decides by the
lag iff no follower has acknowledged more than is committed, up to a lag that wraps to `maxLag` or
less; and then a follower that has as much as one in the ISR is in the ISR. -/
theorem isr_by_lag_iff {r : RaftNode} (hleader : r.state = .leader)
    (hcommit : r.commitIndex < size64) (hmatch : ∀ p, r.matchIndex.get p 0 < size64) :
    (r.IsrByLag ↔ ∀ p ∈ r.peers.keys, r.matchIndex.get p 0 ≤ r.commitIndex ∨
        r.commitIndex + size64 ≤ r.matchIndex.get p 0 + r.maxLag) ∧
      (r.IsrByLag → ∀ p ∈ r.peers.keys, ∀ q ∈ r.peers.keys,
        r.checkISR.isr.get p false = true → r.matchIndex.get p 0 ≤ r.matchIndex.get q 0 →
          r.checkISR.isr.get q false = true) := by
  constructor
  · refine forall₂_congr fun p hp => ?_
    rw [RaftNode.isr_checkISR hleader hp]
    exact lag64_iff hcommit (hmatch p)
  · intro hlag p hp q hq hin hle
    have hnear := (hlag p hp).mp hin
    refine (hlag q hq).mpr ?_
    omega

section

open scoped GrowthPolicy

/-- A new leader that has heard from nobody decides by the lag. -/
theorem isr_by_lag_iff_new :
    ∃ p : Proc, Run Proc.next (fun _ _ _ => True) (Proc.boot "a" ["b", "c"] "data" {}) p ∧
      p.node.state = .leader ∧ p.node.IsrByLag := by
  obtain ⟨p, hrun, hleader, hcommit, hmatch⟩ :
      ∃ p : Proc, Run Proc.next (fun _ _ _ => True) (Proc.boot "a" ["b", "c"] "data" {}) p ∧
        p.node.state = .leader ∧ p.node.commitIndex = 0 ∧
        p.node.matchIndex.entries.all (fun x => x.2 = 0) = true :=
    exists_run_of_execWith
      [.electionTimeout, .voteReply 0 "b" { term := 1, voteGranted := true }] (by decide +kernel)
  have hzero (q : String) : p.node.matchIndex.get q 0 = 0 := by
    rw [GoMap.get]
    cases hq : p.node.matchIndex.lookup q with
    | none => rfl
    | some m =>
      exact of_decide_eq_true (List.all_eq_true.mp hmatch _ (AList.mem_lookup_iff.mp hq))
  refine ⟨p, hrun, hleader, (isr_by_lag_iff hleader ?_ fun q => ?_).1.mpr fun q _ => Or.inl ?_⟩
  · rw [hcommit]
    decide
  · rw [hzero]
    decide
  · rw [hzero]
    exact Nat.zero_le _

/-- The files of `a` with 999 entries of an earlier term, the last one of them not committed. -/
def uncommittedDisk : Disk :=
  Cluster.savedDisk ["a", "b", "c"] 1 998
    ((List.range 999).map fun k => { term := 0, index := k + 1 })

/-- `a` leads in term 2 and cannot commit past the entry of an earlier term. `b` has acknowledged
all entries, and is dropped; `c` has acknowledged none, and stays. -/
theorem isr_drops_ahead :
    ∃ p : Proc,
      Run Proc.next (fun _ _ _ => True) (Proc.boot "a" ["b", "c"] "data" uncommittedDisk) p ∧
      p.node.state = .leader ∧ p.node.commitIndex = 998 ∧
      p.node.matchIndex.get "b" 0 = 1000 ∧ p.node.matchIndex.get "c" 0 = 0 ∧
      p.node.checkISR.isr.get "b" false = false ∧ p.node.checkISR.isr.get "c" false = true :=
  exists_run_of_execWith
    [.electionTimeout, .voteReply 0 "b" { term := 2, voteGranted := true },
      .submitCommand "t" 0 [1], .sendAppendEntries "b", .marshal 1,
      .appendReply 1 { term := 2, success := true }]
    (by decide +kernel)

end

end Raft

end DistributedMQ
