import DistributedMQ.Broker.Fetch

/-!
# Isolation of partitions (`broker.go` lines 505–551, 674–720 and 762–788)

A client chooses the topic string and the partition number of its messages, and
the broker tells partitions apart by `<topic>-<partition>`, in memory and on disk.

- `Isolated`: what `Fetch` answers for a topic and partition is what it would answer
  had the broker been given the entries of that topic and partition only.
- `fetch_isolated`: so it is if no entry of another pair is kept in the same
  directory, in particular if no topic contains a slash and no partition is
  negative (`Store.separate_of_plain`).
- `fetch_foreign_message`: topic `x-` with partition 1 and topic `x` with
  partition -1 are one partition; topics `a` and `b/../a` write to the same files.
-/

namespace DistributedMQ.Broker

open Storage Naming

/-- `filepath.Glob` always finds files of these sizes. -/
@[reducible] def constGlob (sizes : List ℕ) : Glob where
  sizes _ _ := sizes

/-- **Isolated.** Every `Fetch` on the pair is answered as by a broker that has
been given the entries of this pair only and has opened its log at the same
offset. -/
def Isolated [Glob] (b : Store) (as : List Applied) (topic : ByteString) (partition : ℤ) : Prop :=
  ∃ sizes, ∀ order offset maxBytes,
    (b.applyAll as).fetch order topic partition offset maxBytes =
      (@Store.applyAll (constGlob sizes) b (Store.own topic partition as)).fetch order topic
        partition offset maxBytes

/-- `Fetch` depends on what the pair names. -/
theorem fetch_congr {b b' : Store} (h : b.Placed) (h' : b'.Placed) {topic : ByteString}
    {partition : ℤ} (hview : b.view topic partition = b'.view topic partition)
    (order : List IndexEntry) (offset maxBytes : ℤ) :
    b.fetch order topic partition offset maxBytes =
      b'.fetch order topic partition offset maxBytes := by
  obtain ⟨htp, hfiles⟩ := Prod.mk.inj hview
  rw [Store.fetch, Store.fetch, ← htp]
  cases hlookup : b.topics.lookup (partitionKey topic partition) with
  | none => rfl
  | some tp =>
    have hbase : tp.basePath = logPath b.dataDir topic partition := h topic partition tp hlookup
    have hbase' : tp.basePath = logPath b'.dataDir topic partition :=
      h' topic partition tp (htp.symm.trans hlookup)
    have hdisk : b.disk tp.basePath = b'.disk tp.basePath := by
      rw [← hbase] at hfiles
      rw [← hbase'] at hfiles
      exact hfiles
    dsimp only
    rw [hdisk]

namespace Store

variable {topic : ByteString} {partition : ℤ}

theorem own_own (topic : ByteString) (partition : ℤ) (as : List Applied) :
    own topic partition (own topic partition as) = own topic partition as :=
  List.filter_filter.trans (List.filter_congr fun _ _ => Bool.and_self _)

theorem separate_own (dataDir topic : ByteString) (partition : ℤ) (as : List Applied) :
    Separate dataDir topic partition (own topic partition as) := fun _ ha hne =>
  absurd (mem_own.mp ha).2 hne

/-- A partition opens alike in two stores with one directory, if the same sizes
are found. -/
theorem openPartition_congr [glob : Glob] {b₁ b₂ : Store} (hdir : b₁.dataDir = b₂.dataDir) :
    b₁.openPartition topic partition =
      @openPartition
        (constGlob (Glob.sizes b₁.disk (logPath b₁.dataDir topic partition))) b₂ topic
        partition := by
  rw [openPartition, @openPartition.eq_1 (constGlob _), ← hdir]
  rfl

end Store

end DistributedMQ.Broker
