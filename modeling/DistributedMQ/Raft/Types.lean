import DistributedMQ.Lib.TermLog
import Mathlib.Data.List.AList

/-!
# Raft data model (`raft.proto`, `raft.go` lines 18–65)

The messages of the Raft service and the `RaftNode` struct.

- Go maps are association lists with distinct keys (`GoMap`); reading a missing
  key gives the zero value, as in Go.
- `uint64` counters are natural numbers. The two operations on them that can
  leave the range, `currentTerm++` and the difference of two counters, go
  through `inc64` and `sub64`, which wrap at `2 ^ 64`.
- `log` is a Go slice with its backing array (`Lib/Slice.lean`), because
  `sendAppendEntries` hands out a window into it.
- A `RaftNode` carries, beside the fields of the struct, what its methods act
  on outside of it: the files under `dataDir`, and the commit channels it has
  made and closed. `applyCh` is the list of entries sent on the channel so far.
- Timers, gRPC plumbing and the print statements are left out; a timer is an
  event that may fire at any moment.
-/

namespace DistributedMQ

/-- A Go map: an association list with distinct keys. -/
abbrev GoMap (K V : Type) : Type := AList fun _ : K => V

namespace GoMap

variable {K V : Type} [DecidableEq K]

/-- `m[k]`, the zero value `z` if the key is missing. -/
def get (m : GoMap K V) (k : K) (z : V) : V := (m.lookup k).getD z

/-- `len(m)`. -/
def len (m : GoMap K V) : ℕ := m.entries.length

/-- The values in iteration order. -/
def values (m : GoMap K V) : List V := m.entries.map Sigma.snd

@[simp] theorem get_insert_self (m : GoMap K V) (k : K) (v z : V) :
    get (m.insert k v) k z = v := by
  simp [get]

/-- Compared by their entries, so that the comparison evaluates. -/
instance [DecidableEq V] : DecidableEq (GoMap K V) := fun _ _ =>
  decidable_of_iff _ AList.ext_iff.symm

theorem get_insert_ne (m : GoMap K V) {k k' : K} (h : k' ≠ k) (v z : V) :
    get (m.insert k v) k' z = get m k' z := by
  simp [get, AList.lookup_insert_ne h]

/-- Every value is replaced. -/
def mapValues (m : GoMap K V) (f : V → V) : GoMap K V :=
  ⟨m.entries.map fun x => ⟨x.1, f x.2⟩, by
    have hkeys : (m.entries.map fun x => (⟨x.1, f x.2⟩ : (_ : K) × V)).keys = m.entries.keys :=
      List.map_map
    rw [List.NodupKeys, hkeys]
    exact m.nodupKeys⟩

theorem lookup_mapValues (m : GoMap K V) (f : V → V) (k : K) :
    (m.mapValues f).lookup k = (m.lookup k).map f := by
  refine Option.ext fun v => ?_
  rw [← Option.mem_def, AList.mem_lookup_iff, Option.map_eq_some_iff]
  constructor
  · intro h
    obtain ⟨x, hx, heq⟩ := List.mem_map.mp h
    cases heq
    exact ⟨x.2, AList.mem_lookup_iff.mpr hx, rfl⟩
  · rintro ⟨v, hv, rfl⟩
    exact List.mem_map.mpr ⟨⟨k, v⟩, AList.mem_lookup_iff.mp hv, rfl⟩

theorem exists_lookup {m : GoMap K V} (h : m ≠ ∅) : ∃ k v, m.lookup k = some v := by
  cases hm : m.entries with
  | nil => exact absurd (AList.ext hm) h
  | cons x l => exact ⟨x.1, x.2, AList.mem_lookup_iff.mpr (hm ▸ List.mem_cons_self)⟩

theorem mem_iff_exists_lookup {m : GoMap K V} {k : K} : k ∈ m ↔ ∃ v, m.lookup k = some v := by
  rw [← AList.lookup_isSome, Option.isSome_iff_exists]

theorem lookup_insert_ne_none {m : GoMap K V} {k k' : K} {v' : V} (h : m.lookup k ≠ none) :
    AList.lookup k (m.insert k' v') ≠ none := by
  by_cases heq : k = k'
  · rw [heq, AList.lookup_insert]
    nofun
  · rwa [AList.lookup_insert_ne heq]

/-- The entries that pass a test: what is left when a loop deletes the others. -/
def filter (m : GoMap K V) (p : K → V → Bool) : GoMap K V :=
  ⟨m.entries.filter fun x => p x.1 x.2, m.nodupKeys.sublist List.filter_sublist⟩

theorem lookup_filter (m : GoMap K V) (p : K → V → Bool) (k : K) :
    (m.filter p).lookup k = (m.lookup k).filter (p k) := by
  refine Option.ext fun v => ?_
  rw [← Option.mem_def, AList.mem_lookup_iff, Option.filter_eq_some_iff, ← Option.mem_def,
    AList.mem_lookup_iff]
  exact List.mem_filter

theorem lookup_insert_eq (m : GoMap K V) (k : K) (v : V) (k' : K) :
    AList.lookup k' (m.insert k v) = if k' = k then some v else m.lookup k' := by
  split
  · rename_i heq
    rw [heq]
    exact AList.lookup_insert _
  · rename_i hne
    exact AList.lookup_insert_ne hne

theorem lookup_erase_eq (m : GoMap K V) (k k' : K) :
    AList.lookup k' (m.erase k) = if k' = k then none else m.lookup k' := by
  split
  · rename_i heq
    rw [heq]
    exact AList.lookup_erase _ _
  · rename_i hne
    exact AList.lookup_erase_ne hne

/-- A loop that deletes keys. -/
theorem lookup_foldl_erase (ks : List K) (m : GoMap K V) (k : K) :
    (ks.foldl (fun m k => m.erase k) m).lookup k = if k ∈ ks then none else m.lookup k := by
  induction ks generalizing m with
  | nil => rfl
  | cons k' ks ih =>
    rw [List.foldl_cons, ih, lookup_erase_eq]
    by_cases hmem : k ∈ ks
    · rw [if_pos hmem, if_pos (List.mem_cons_of_mem k' hmem)]
    · rw [if_neg hmem]
      by_cases heq : k = k'
      · rw [if_pos heq, if_pos (heq ▸ List.mem_cons_self)]
      · rw [if_neg heq, if_neg fun h => (List.mem_cons.mp h).elim heq hmem]

omit [DecidableEq K] in
theorem len_eq_length_keys (m : GoMap K V) : m.len = m.keys.length := (List.length_map _).symm

theorem len_erase {m : GoMap K V} {k : K} (h : k ∈ m) : GoMap.len (m.erase k) + 1 = m.len := by
  rw [len_eq_length_keys, len_eq_length_keys, AList.keys_erase]
  exact List.length_erase_add_one (AList.mem_keys.mp h)

theorem len_erase_le (m : GoMap K V) (k : K) : GoMap.len (m.erase k) ≤ m.len := by
  rw [len_eq_length_keys, len_eq_length_keys, AList.keys_erase]
  exact List.length_erase_le

theorem len_insert_of_mem {m : GoMap K V} {k : K} (h : k ∈ m) (v : V) :
    GoMap.len (m.insert k v) = m.len := by
  rw [len_eq_length_keys, len_eq_length_keys, AList.keys_insert, List.length_cons]
  exact List.length_erase_add_one (AList.mem_keys.mp h)

theorem len_insert_of_notMem {m : GoMap K V} {k : K} (h : k ∉ m) (v : V) :
    GoMap.len (m.insert k v) = m.len + 1 := by
  rw [len, AList.entries_insert_of_notMem h]
  rfl

omit [DecidableEq K] in
theorem len_filter_le (m : GoMap K V) (p : K → V → Bool) : GoMap.len (m.filter p) ≤ m.len :=
  List.length_filter_le _ _

/-- An order in which Go may range over the map. -/
def Order (m : GoMap K V) (order : List (K × V)) : Prop :=
  order.Perm (m.entries.map fun x => (x.1, x.2))

instance [DecidableEq V] (m : GoMap K V) (order : List (K × V)) : Decidable (m.Order order) :=
  inferInstanceAs (Decidable (List.Perm _ _))

theorem Order.mem_iff {m : GoMap K V} {order : List (K × V)} (h : m.Order order) {k : K} {v : V} :
    (k, v) ∈ order ↔ m.lookup k = some v := by
  rw [List.Perm.mem_iff h, List.mem_map]
  constructor
  · rintro ⟨x, hx, heq⟩
    cases heq
    exact AList.mem_lookup_iff.mpr hx
  · exact fun hlookup => ⟨⟨k, v⟩, AList.mem_lookup_iff.mp hlookup, rfl⟩

omit [DecidableEq K] in
theorem Order.length_eq {m : GoMap K V} {order : List (K × V)} (h : m.Order order) :
    order.length = m.len :=
  (List.Perm.length_eq h).trans (List.length_map _)

end GoMap

/-- The number of `uint64` values. -/
def size64 : ℕ := 2 ^ 64

/-- `n++` on a `uint64`. -/
def inc64 (n : ℕ) : ℕ := (n + 1) % size64

/-- `a - b` on `uint64`s. -/
def sub64 (a b : ℕ) : ℕ := (a + size64 - b) % size64

theorem inc64_of_lt {n : ℕ} (h : n + 1 < size64) : inc64 n = n + 1 := Nat.mod_eq_of_lt h

namespace Raft

inductive NodeState where
  | follower
  | candidate
  | leader
deriving DecidableEq, Repr

inductive ConfigState where
  | stable
  | joint
deriving DecidableEq, Repr

inductive EntryType where
  | data
  | confChange
  | jointConsensus
deriving DecidableEq, Repr

structure ConfigEntry where
  oldPeers : List String
  newPeers : List String
deriving DecidableEq, Repr

structure LogEntry where
  term : ℕ
  index : ℕ
  type : EntryType := .data
  topic : String := ""
  partition : ℤ := 0
  data : List UInt8 := []
  config : Option ConfigEntry := none
deriving DecidableEq, Repr

/-- The entry at index 0 of every log. -/
def sentinel : LogEntry := { term := 0, index := 0 }

structure RequestVoteArgs where
  term : ℕ
  candidateId : String
  lastLogIndex : ℕ
  lastLogTerm : ℕ
deriving DecidableEq, Repr

structure RequestVoteReply where
  term : ℕ
  voteGranted : Bool
deriving DecidableEq, Repr

structure AppendEntriesArgs where
  term : ℕ
  leaderId : String
  prevLogIndex : ℕ
  prevLogTerm : ℕ
  entries : List LogEntry
  leaderCommit : ℕ
deriving DecidableEq, Repr

structure AppendEntriesReply where
  term : ℕ
  success : Bool
  conflictIndex : ℕ := 0
  lastLogIndex : ℕ := 0
deriving DecidableEq, Repr

/-- A byte string as `encoding/gob` sees it: the `LogEntry` values it decodes
before the first error. Bytes written by one encoder decode to the values
encoded. That bytes appended by another encoder continue the sequence is an
assumption. -/
structure GobBytes where
  values : List LogEntry
deriving DecidableEq, Repr

structure InstallSnapshotArgs where
  term : ℕ
  leaderId : String
  lastIncludedIndex : ℕ
  lastIncludedTerm : ℕ
  data : GobBytes
deriving DecidableEq, Repr

structure InstallSnapshotReply where
  term : ℕ
  success : Bool
deriving DecidableEq, Repr

structure Peer where
  addr : String
  learner : Bool := false
deriving DecidableEq, Repr

/-- What `saveState` writes to `raft_state.dat`. -/
structure SavedState where
  currentTerm : ℕ
  votedFor : String
  commitIndex : ℕ
  lastApplied : ℕ
  logLength : ℕ
  configState : ConfigState
  currentConfig : GoMap String Bool
  newConfig : Option (GoMap String Bool)
  persistedIndex : ℕ
deriving DecidableEq

/-- The files under `dataDir`; `none` is a file that does not exist. -/
structure Disk where
  stateFile : Option SavedState := none
  logFile : Option GobBytes := none

structure RaftNode where
  state : NodeState
  currentTerm : ℕ
  votedFor : String
  log : GoSlice LogEntry
  commitIndex : ℕ
  lastApplied : ℕ
  nextIndex : GoMap String ℕ
  matchIndex : GoMap String ℕ
  peers : GoMap String Peer
  selfAddr : String
  /-- The entries sent on `applyCh` so far; `none` is the nil channel. -/
  applyCh : Option (List LogEntry)
  dataDir : String
  /-- The commit channel waiting at an index, by number. -/
  pendingCommit : GoMap ℕ ℕ
  isr : GoMap String Bool
  maxLag : ℕ
  currentConfig : GoMap String Bool
  /-- `none` is the nil map. -/
  newConfig : Option (GoMap String Bool)
  configState : ConfigState
  persistedIndex : ℕ
  /-- The files under `dataDir`. -/
  disk : Disk
  /-- The number of commit channels made so far. -/
  chansMade : ℕ
  /-- The commit channels closed so far. -/
  chansClosed : List ℕ

namespace RaftNode

/-- `r.log[i].Term`; the callers stay below `len(r.log)`. -/
def termAt (r : RaftNode) (i : ℕ) : ℕ := (r.log.elems[i]?.map LogEntry.term).getD 0

/-- `len(r.log) - 1`. -/
def lastIndex (r : RaftNode) : ℕ := r.log.len - 1

/-- `r.newConfig[addr]`, false on the nil map. -/
def inNewConfig (r : RaftNode) (addr : String) : Bool :=
  (r.newConfig.map fun m => m.get addr false).getD false

/-- `len(r.newConfig)`, 0 on the nil map. -/
def newConfigLen (r : RaftNode) : ℕ := (r.newConfig.map GoMap.len).getD 0

end RaftNode

end Raft

end DistributedMQ
