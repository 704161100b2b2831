import DistributedMQ.Raft.LogMatching

/-!
# A leader only appends

Log matching keeps an archive of the logs held so far (`LogInv`). Here is what it says about two
moments of a run.

- `leader_appendOnly`: as long as a member leads in a term its log only grows, and whatever anybody
  holds of that term is in it.
- `start_kept`: what all logs start with, they start with in every later state.
-/

namespace DistributedMQ.Raft

open RaftNode Machine TermLog

section runs

variable [GrowthPolicy] {members : List String} {base : ℕ} {s s' : Cluster}
  {book : VoteBook String} {A : Archive LogEntry String}

/-- **A run**, with what becomes of the archive. -/
theorem LogInv.run_grows (hnd : members.Nodup) (hne : "" ∉ members)
    (h : LogInv members base s book A) (hrun : Run Cluster.step Cluster.Careful s s') :
    ∃ book' A', A.Le A' ∧ LogInv members base s' book' A' := by
  refine hrun.invariant (P := fun t => ∃ book' A', A.Le A' ∧ LogInv members base t book' A')
    ⟨book, A, .refl A, h⟩ ?_
  rintro t l u ⟨book', A', hle, hinv⟩ hg hst
  obtain ⟨book'', A'', hle', -, hinv'⟩ := hinv.step_grows hnd hne hg hst
  exact ⟨book'', A'', hle.trans hle', hinv'⟩

omit [GrowthPolicy] in
/-- An entry of the term a member leads in is in that member's log, with all that is before it. -/
theorem LogInv.prefix_of_leader (h : LogInv members base s book A) {i j : String}
    (hi : i ∈ members) (hj : j ∈ members) (hlead : (s.node i).state = .leader) {k : ℕ}
    {e : LogEntry} (he : (s.node j).log.elems[k]? = some e)
    (hterm : e.term = (s.node i).currentTerm) :
    (s.node j).log.elems.take (k + 1) <+: (s.node i).log.elems := by
  have habove : base < (s.node i).currentTerm := by
    refine (h.member i hi).above ?_
    rw [show (s.procs i).node.state = .leader from hlead]
    decide
  rcases h.ok.origin _ k e (h.member j hj).known he with hbase | ⟨c, L, hled, hpre⟩
  · omega
  · have hown : A.led (s.node i).currentTerm = some (i, (s.node i).log.elems) :=
      (h.member i hi).lead hlead
    rw [hterm, hown] at hled
    obtain ⟨-, rfl⟩ := Prod.mk.inj (Option.some.inj hled)
    exact hpre

variable {dataDir : String → String} {disk : String → Disk}

/-- **Leader append-only**: while a member leads in a term it neither removes nor replaces an entry
of its log, and whatever another member holds of this term is in the leader's log at its place. -/
theorem leader_appendOnly (hstart : StartOk members dataDir disk) {s₁ s₂ : Cluster} {i : String}
    (hrun : Run Cluster.step Cluster.Careful (Cluster.boot members dataDir disk) s₁)
    (hrun' : Run Cluster.step Cluster.Careful s₁ s₂) (hi : i ∈ members)
    (hlead₁ : (s₁.node i).state = .leader) (hlead₂ : (s₂.node i).state = .leader)
    (hterm : (s₂.node i).currentTerm = (s₁.node i).currentTerm) :
    (s₁.node i).log.elems <+: (s₂.node i).log.elems ∧
      ∀ j ∈ members, ∀ k e, (s₂.node j).log.elems[k]? = some e →
        e.term = (s₂.node i).currentTerm →
          (s₂.node j).log.elems.take (k + 1) <+: (s₂.node i).log.elems := by
  obtain ⟨base, hboot⟩ := logInv_boot hstart
  obtain ⟨book₁, A₁, -, h₁⟩ := hboot.run_grows hstart.nodup hstart.named hrun
  obtain ⟨book₂, A₂, hle, h₂⟩ := h₁.run_grows hstart.nodup hstart.named hrun'
  refine ⟨?_, fun j hj k e he het => h₂.prefix_of_leader hi hj hlead₂ he het⟩
  obtain ⟨L, hled, hpre⟩ := hle.led _ _ _ ((h₁.member i hi).lead hlead₁)
  have hown : A₂.led (s₂.node i).currentTerm = some (i, (s₂.node i).log.elems) :=
    (h₂.member i hi).lead hlead₂
  rw [hterm] at hown
  obtain ⟨-, rfl⟩ := Prod.mk.inj (Option.some.inj (hown.symm.trans hled))
  exact hpre

/-- What every log starts with is never lost. -/
theorem start_kept (hstart : StartOk members dataDir disk) {K : List LogEntry}
    (hK : ∀ i ∈ members, K <+: (newRaftNode i members (dataDir i) (disk i)).log.elems)
    (hrun : Run Cluster.step Cluster.Careful (Cluster.boot members dataDir disk) s) :
    ∀ i ∈ members, K <+: (s.node i).log.elems := by
  obtain ⟨base, hboot⟩ := logInv_boot hstart
  obtain ⟨book, A, hinv, hknown⟩ : ∃ book A, LogInv members base s book A ∧
      ∀ M, A.known M → K <+: M := by
    refine hrun.invariant (P := fun t => ∃ book A, LogInv members base t book A ∧
      ∀ M, A.known M → K <+: M) ⟨_, _, hboot, ?_⟩ ?_
    · rintro M ⟨i, hi, rfl⟩
      exact hK i hi
    · rintro t l u ⟨book, A, hinv, hknown⟩ hg hst
      obtain ⟨book', A', -, hnew, hinv'⟩ := hinv.step_grows hstart.nodup hstart.named hg hst
      refine ⟨book', A', hinv', fun M hM => ?_⟩
      rcases hnew M hM with hold | ⟨L, e, hL, rfl⟩
      · exact hknown M hold
      · exact (hknown L hL).trans (List.prefix_append L [e])
  exact fun i hi => hknown _ (hinv.member i hi).known

end runs

section traces

open scoped GrowthPolicy

/-- `a` leads in term 1 with 1000 entries and later on with 1002, two of which `q` holds. -/
theorem leader_appendOnly_fourMembers :
    ∃ s₁ s₂ : Cluster, (s₁.node "a").log.len = 1000 ∧ (s₂.node "a").log.len = 1002 ∧
      (s₁.node "a").log.elems <+: (s₂.node "a").log.elems ∧
      (s₂.node "q").log.elems.take 1002 <+: (s₂.node "a").log.elems := by
  obtain ⟨s₁, s, s₂, hrun, hg, hst, hrun', hlead₁, hlead₂, hterm, hlen₁, hlen₂, e, he, het⟩ :
      ∃ s₁ s s₂, Run Cluster.step Cluster.Careful
          (Cluster.boot ["a", "b", "p", "q"] (fun _ => "data") fourDisks) s₁ ∧
        s₁.Careful ("a", .submitCommand "t" 0 [1]) s ∧
        s₁.step ("a", .submitCommand "t" 0 [1]) = some s ∧
        Run Cluster.step Cluster.Careful s s₂ ∧ (s₁.node "a").state = .leader ∧
        (s₂.node "a").state = .leader ∧
        (s₂.node "a").currentTerm = (s₁.node "a").currentTerm ∧
        (s₁.node "a").log.len = 1000 ∧ (s₂.node "a").log.len = 1002 ∧
        ∃ e ∈ (s₂.node "q").log.elems[1001]?, e.term = (s₂.node "a").currentTerm :=
    exists_step_of_execWith (replicateToQ.take 5) ("a", .submitCommand "t" 0 [1])
      (replicateToQ.drop 6) (by decide +kernel)
  have hrest : Run Cluster.step Cluster.Careful s₁ s₂ := Run.trans (.tail .refl hg hst) hrun'
  obtain ⟨hpre, hheld⟩ := leader_appendOnly startOk_fourDisks hrun hrest (by decide) hlead₁
    hlead₂ hterm
  exact ⟨s₁, s₂, hlen₁, hlen₂, hpre, hheld "q" (by decide) 1001 e he het⟩

end traces

end DistributedMQ.Raft
