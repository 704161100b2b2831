import DistributedMQ.Raft.Types
import Mathlib.Data.List.Induction

/-!
# The index of a partition (`storage/bridge_go.go` lines 35–44 and 304–368)

`SparseIndex` is a map from offsets to index entries. It lives in memory only:
`OpenSparseIndex` does not read its path. Every entry stands under its own
offset, which the structure carries.

Go gives the entries of a map in any order, so the functions that range over
the index take the order as an argument.
-/

namespace DistributedMQ.Storage

/-- The conversion `int32(n)`. -/
@[irreducible] def int32 (n : ℕ) : ℤ := Int.bmod n (2 ^ 32)

theorem int32_of_lt {n : ℕ} (h : n < 2 ^ 31) : int32 n = n := by
  unfold int32
  refine Int.bmod_eq_of_le ?_ ?_
  · omega
  · simp only [Nat.reducePow] at h ⊢
    omega

structure IndexEntry where
  offset : ℕ
  size : ℤ
  timestamp : ℕ
deriving DecidableEq, Repr

structure SparseIndex where
  entries : GoMap ℕ IndexEntry
  keyed : ∀ offset entry, entries.lookup offset = some entry → entry.offset = offset

namespace SparseIndex

def openSparseIndex : SparseIndex where
  entries := ∅
  keyed := nofun

def put (idx : SparseIndex) (offset : ℕ) (size : ℤ) (timestamp : ℕ) : SparseIndex where
  entries := idx.entries.insert offset { offset, size, timestamp }
  keyed := by
    intro offset' entry h
    by_cases heq : offset' = offset
    · subst heq
      rw [AList.lookup_insert] at h
      rw [← Option.some.inj h]
    · rw [AList.lookup_insert_ne heq] at h
      exact idx.keyed offset' entry h

theorem lookup_put (idx : SparseIndex) (offset : ℕ) (size : ℤ) (timestamp : ℕ) :
    (idx.put offset size timestamp).entries.lookup offset = some { offset, size, timestamp } :=
  AList.lookup_insert _

theorem lookup_put_ne {idx : SparseIndex} {offset offset' : ℕ} (h : offset' ≠ offset) (size : ℤ)
    (timestamp : ℕ) :
    (idx.put offset size timestamp).entries.lookup offset' = idx.entries.lookup offset' :=
  AList.lookup_insert_ne h

/-- The entries, in an order Go may range over them in. -/
def Order (idx : SparseIndex) (order : List IndexEntry) : Prop :=
  order.Perm (GoMap.values idx.entries)

/-- `GetEntriesAfter`, ranging over the map in the order given. -/
def getEntriesAfter (order : List IndexEntry) (offset : ℤ) : List IndexEntry :=
  order.filter fun entry => offset < entry.offset

theorem mem_getEntriesAfter {order : List IndexEntry} {offset : ℤ} {entry : IndexEntry} :
    entry ∈ getEntriesAfter order offset ↔ entry ∈ order ∧ offset < entry.offset := by
  rw [getEntriesAfter, List.mem_filter, decide_eq_true_iff]

theorem getEntriesAfter_cons {entry : IndexEntry} {offset : ℤ} (h : offset < entry.offset)
    (order : List IndexEntry) :
    getEntriesAfter (entry :: order) offset = entry :: getEntriesAfter order offset :=
  List.filter_cons_of_pos (p := fun entry : IndexEntry => decide (offset < entry.offset))
    (decide_eq_true h)

variable {idx : SparseIndex}

theorem order_values (idx : SparseIndex) : idx.Order (GoMap.values idx.entries) :=
  List.Perm.refl _

theorem mem_values_iff {entry : IndexEntry} :
    entry ∈ GoMap.values idx.entries ↔ idx.entries.lookup entry.offset = some entry := by
  constructor
  · intro h
    obtain ⟨⟨offset, _⟩, hmem, rfl⟩ := List.mem_map.mp h
    have hlookup : idx.entries.lookup offset = some _ := AList.mem_lookup_iff.mpr hmem
    rwa [idx.keyed offset _ hlookup]
  · intro h
    exact List.mem_map_of_mem (f := Sigma.snd) (AList.mem_lookup_iff.mp h)

theorem map_offset_values (idx : SparseIndex) :
    (GoMap.values idx.entries).map IndexEntry.offset = idx.entries.keys := by
  rw [GoMap.values, List.map_map]
  refine List.map_congr_left fun x hx => ?_
  exact idx.keyed x.1 x.2 (AList.mem_lookup_iff.mpr hx)

/-- No two entries have the same offset. -/
theorem nodup_offsets (idx : SparseIndex) :
    ((GoMap.values idx.entries).map IndexEntry.offset).Nodup := by
  rw [map_offset_values]
  exact idx.entries.nodupKeys

/-- An entry at a new offset comes first. -/
theorem values_put {offset : ℕ} (h : idx.entries.lookup offset = none) (size : ℤ)
    (timestamp : ℕ) :
    GoMap.values (idx.put offset size timestamp).entries =
      { offset, size, timestamp } :: GoMap.values idx.entries := by
  have hfresh : offset ∉ idx.entries := AList.lookup_eq_none.mp h
  rw [put, GoMap.values, AList.entries_insert_of_notMem hfresh]
  rfl

/-! ## Queries -/

/-- The keys of the index, in an order Go may range over them in. -/
def KeyOrder (idx : SparseIndex) (offsets : List ℕ) : Prop :=
  offsets.Perm idx.entries.keys

/-- The answer that an entry or `nil` makes. -/
def entryOrError : Option IndexEntry → Except String IndexEntry
  | some entry => .ok entry
  | none => .error "not found"

/-- `Get`; no key is negative. -/
def get (idx : SparseIndex) (offset : ℤ) : Except String IndexEntry :=
  entryOrError (if 0 ≤ offset then idx.entries.lookup offset.toNat else none)

/-- The body of the loop of `Lookup`. -/
def better (timestamp : ℤ) (best : Option IndexEntry) (entry : IndexEntry) : Option IndexEntry :=
  if entry.timestamp ≤ timestamp then
    match best with
    | none => some entry
    | some b => if b.timestamp < entry.timestamp then some entry else some b
  else best

/-- `Lookup`, ranging over the map in the order given. -/
def lookup (order : List IndexEntry) (timestamp : ℤ) : Except String IndexEntry :=
  entryOrError (order.foldl (better timestamp) none)

/-- `GetLastOffset`, ranging over the keys in the order given. -/
def getLastOffset (offsets : List ℕ) : ℕ :=
  offsets.foldl (fun maxOffset offset => if maxOffset < offset then offset else maxOffset) 0

/-- The latest entry that is not after the time; none if all are. -/
structure IsLatest (order : List IndexEntry) (timestamp : ℤ) (best : Option IndexEntry) :
    Prop where
  mem : ∀ entry, best = some entry → entry ∈ order ∧ (entry.timestamp : ℤ) ≤ timestamp
  most : ∀ entry ∈ order, (entry.timestamp : ℤ) ≤ timestamp →
    ∃ b, best = some b ∧ entry.timestamp ≤ b.timestamp

namespace IsLatest

variable {order : List IndexEntry} {timestamp : ℤ} {best : Option IndexEntry} {entry : IndexEntry}

/-- An entry that is too late, or not later than the best one, changes nothing. -/
theorem skip (h : IsLatest order timestamp best)
    (hskip : (entry.timestamp : ℤ) ≤ timestamp →
      ∃ b, best = some b ∧ entry.timestamp ≤ b.timestamp) :
    IsLatest (order ++ [entry]) timestamp best := by
  refine ⟨fun e he => ?_, fun e he hle => ?_⟩
  · exact ⟨List.mem_append_left _ (h.mem e he).1, (h.mem e he).2⟩
  · rcases List.mem_append.mp he with hold | hnew
    · exact h.most e hold hle
    · obtain rfl := List.mem_singleton.mp hnew
      exact hskip hle

/-- An entry that is later than the best one, or the first one, is the best one. -/
theorem replace (h : IsLatest order timestamp best) (hle : (entry.timestamp : ℤ) ≤ timestamp)
    (hlate : ∀ b, best = some b → b.timestamp ≤ entry.timestamp) :
    IsLatest (order ++ [entry]) timestamp (some entry) := by
  refine ⟨fun e he => ?_, fun e he hele => ⟨entry, rfl, ?_⟩⟩
  · cases he
    exact ⟨List.mem_append_right _ (List.mem_singleton_self _), hle⟩
  · rcases List.mem_append.mp he with hold | hnew
    · obtain ⟨b, hb, heb⟩ := h.most e hold hele
      exact heb.trans (hlate b hb)
    · obtain rfl := List.mem_singleton.mp hnew
      exact le_refl _

/-- An iteration of the loop: the best entry is again the latest of those seen. -/
theorem better (h : IsLatest order timestamp best) (entry : IndexEntry) :
    IsLatest (order ++ [entry]) timestamp (SparseIndex.better timestamp best entry) := by
  unfold SparseIndex.better
  split
  · rename_i hle
    cases best with
    | none => exact h.replace hle fun b hb => absurd hb (by simp)
    | some b =>
      dsimp only
      split
      · rename_i hlt
        exact h.replace hle fun b' hb => Option.some.inj hb ▸ hlt.le
      · rename_i hge
        exact h.skip fun _ => ⟨b, rfl, not_lt.mp hge⟩
  · rename_i hlate
    exact h.skip fun hle => absurd hle hlate

end IsLatest

theorem isLatest_foldl (order : List IndexEntry) (timestamp : ℤ) :
    IsLatest order timestamp (order.foldl (SparseIndex.better timestamp) none) := by
  induction order using List.reverseRecOn with
  | nil => exact ⟨fun _ h => absurd h (by simp), fun _ h => absurd h List.not_mem_nil⟩
  | append_singleton order entry ih =>
    rw [List.foldl_append]
    exact ih.better entry

/-- `GetLastOffset` gives the largest offset, and 0 if there is none. -/
theorem getLastOffset_spec (offsets : List ℕ) :
    (∀ offset ∈ offsets, offset ≤ getLastOffset offsets) ∧
      (getLastOffset offsets ∈ offsets ∨ getLastOffset offsets = 0) := by
  induction offsets using List.reverseRecOn with
  | nil => exact ⟨fun _ h => absurd h List.not_mem_nil, .inr rfl⟩
  | append_singleton offsets last ih =>
    obtain ⟨hmax, hmem⟩ := ih
    rw [getLastOffset, List.foldl_append, ← getLastOffset, List.foldl_cons, List.foldl_nil]
    split
    · rename_i hlt
      refine ⟨fun offset h => ?_, .inl (List.mem_append_right _ (List.mem_singleton_self _))⟩
      rcases List.mem_append.mp h with hold | hnew
      · exact (hmax offset hold).trans hlt.le
      · exact (List.mem_singleton.mp hnew).le
    · rename_i hge
      refine ⟨fun offset h => ?_, hmem.imp_left (List.mem_append_left _)⟩
      rcases List.mem_append.mp h with hold | hnew
      · exact hmax offset hold
      · exact List.mem_singleton.mp hnew ▸ not_lt.mp hge

end SparseIndex

end DistributedMQ.Storage
