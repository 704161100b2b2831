import DistributedMQ.Lib.BinarySearch
import DistributedMQ.CStorage.CommitLog
import Mathlib.Data.Int.Notation
import Mathlib.Order.Nat

/-!
# The sparse index in C (`storage/c/index/sparse_index.c`)

The index is an array of entries in a file that is mapped into memory. Opening extends the file to
its full size, and the number of entries is what the file had room for before.

- `entries`: the entries of the index, in the order of the calls of `sparse_index_put`.
- `sparseIndexLookup_eq`: the binary search finds the first entry that is late enough.
- `sparseIndexLookup_lowerBound`: it ends, no word wraps around on the way, and it reads nothing
  but entries.
- `IndexInv`: what holds after any calls of `sparse_index_put` on a new file.
-/

namespace DistributedMQ.CStorage

open Machine

structure IndexEntry where
  offset : ℕ
  size : ℕ
  timestamp : ℕ
deriving DecidableEq, Repr

/-- An entry of a file that has just been extended. -/
def IndexEntry.zero : IndexEntry where
  offset := 0
  size := 0
  timestamp := 0

/-- `INDEX_ENTRY_SIZE`: the fields have 8, 4 and 8 bytes, and the last one is aligned. -/
def indexEntrySize : ℕ := 24

/-- `MAX_ENTRIES`. -/
def maxEntries : ℕ := 1024 * 1024 * 10

/-- A file of entries. -/
structure IndexFile where
  size : ℕ
  slots : ℕ → IndexEntry
  whole : indexEntrySize ∣ size

namespace IndexFile

/-- A file that `open` has just created. -/
def empty : IndexFile where
  size := 0
  slots := fun _ => .zero
  whole := Nat.dvd_zero _

/-- `ftruncate` to a larger size. -/
def extend (file : IndexFile) (entries : ℕ) : IndexFile where
  size := entries * indexEntrySize
  slots := fun i => if i < file.size / indexEntrySize then file.slots i else .zero
  whole := Nat.dvd_mul_left _ _

def write (file : IndexFile) (i : ℕ) (entry : IndexEntry) : IndexFile where
  size := file.size
  slots := fun j => if j = i then entry else file.slots j
  whole := file.whole

theorem slots_extend_of_le {file : IndexFile} {entries i : ℕ}
    (h : file.size / indexEntrySize ≤ i) : (file.extend entries).slots i = .zero :=
  if_neg (not_lt.mpr h)

end IndexFile

/-- An open index; the length of the mapping is always that of `maxEntries` entries. -/
structure SparseIndex where
  entryCount : ℕ
  lastOffset : ℕ
  /-- The file, as it is seen through the mapping. -/
  file : IndexFile

def sparseIndexOpen (file : IndexFile) : SparseIndex :=
  let mapped :=
    if file.size < maxEntries * indexEntrySize then file.extend maxEntries else file
  let entryCount := file.size / indexEntrySize
  { entryCount
    lastOffset := if 0 < entryCount then (mapped.slots (entryCount - 1)).offset else 0
    file := mapped }

/-- `sparse_index_close`: the file stays. -/
def sparseIndexClose (idx : SparseIndex) : IndexFile := idx.file

def sparseIndexPut (idx : SparseIndex) (offset size timestamp : ℕ) :
    SparseIndex × Except Status Unit :=
  if maxEntries ≤ idx.entryCount then (idx, .error .error)
  else
    ({ entryCount := idx.entryCount + 1
       lastOffset := offset
       file := idx.file.write idx.entryCount { offset, size, timestamp } }, .ok ())

/-- The answer that an entry or none makes. -/
def answer : Option IndexEntry → Except Status IndexEntry
  | some entry => .ok entry
  | none => .error .notFound

theorem answer_eq_ok {found : Option IndexEntry} {entry : IndexEntry} :
    answer found = .ok entry ↔ found = some entry := by
  cases found with
  | none => simp [answer]
  | some e => simp [answer]

theorem answer_eq_notFound {found : Option IndexEntry} :
    answer found = .error .notFound ↔ found = none := by
  cases found with
  | none => simp [answer]
  | some e => simp [answer]

def sparseIndexGet (idx : SparseIndex) (offset : ℕ) : Except Status IndexEntry :=
  let i := (List.range idx.entryCount).find? fun i => (idx.file.slots i).offset = offset
  answer (i.map idx.file.slots)

/-- `sparse_index_lookup`, if it comes to its end after this many iterations. -/
def sparseIndexLookup (fuel : ℕ) (idx : SparseIndex) (timestamp : ℕ) :
    Option (Except Status IndexEntry) :=
  if idx.entryCount = 0 then some (.error .notFound)
  else
    (BinarySearch.search (2 ^ 64) (fun i => timestamp ≤ (idx.file.slots i).timestamp) fuel 0
        (idx.entryCount - 1) idx.entryCount).map fun result =>
      if result = idx.entryCount then .error .notFound else .ok (idx.file.slots result)

def sparseIndexGetLastOffset (idx : SparseIndex) : ℕ := idx.lastOffset

def sparseIndexGetEntryCount (idx : SparseIndex) : ℕ := idx.entryCount

/-- `sparse_index_get_entry_at`: what stands in `*entry` afterwards. -/
def sparseIndexGetEntryAt (idx : SparseIndex) (index : ℤ) (entry : IndexEntry) : IndexEntry :=
  if index < 0 ∨ (idx.entryCount : ℤ) ≤ index then entry else idx.file.slots index.toNat

namespace SparseIndex

variable {idx idx' : SparseIndex}

/-- **Abstraction**: the entries of the index. -/
def entries (idx : SparseIndex) : List IndexEntry := (List.range idx.entryCount).map idx.file.slots

theorem length_entries : idx.entries.length = idx.entryCount := by
  rw [entries, List.length_map, List.length_range]

theorem sparseIndexGet_eq (idx : SparseIndex) (offset : ℕ) :
    sparseIndexGet idx offset = answer (idx.entries.find? fun e => e.offset = offset) := by
  rw [sparseIndexGet, entries, List.find?_map]
  rfl

theorem timestamp_mono (hsorted : idx.entries.Pairwise fun e e' => e.timestamp ≤ e'.timestamp)
    {i j : ℕ} (hij : i ≤ j) (hj : j < idx.entryCount) :
    (idx.file.slots i).timestamp ≤ (idx.file.slots j).timestamp := by
  rcases hij.eq_or_lt with rfl | hlt
  · exact Nat.le_refl _
  · have hget := List.pairwise_iff_getElem.mp hsorted i j (length_entries ▸ hlt.trans hj)
      (length_entries ▸ hj) hlt
    simpa only [entries, List.getElem_map, List.getElem_range] using hget

/-- **The search.** Of entries in the order of time it finds the first that is not before. -/
theorem sparseIndexLookup_eq {fuel timestamp : ℕ} (hcount : idx.entryCount ≤ maxEntries)
    (hsorted : idx.entries.Pairwise fun e e' => e.timestamp ≤ e'.timestamp)
    (hfuel : idx.entryCount < fuel) :
    sparseIndexLookup fuel idx timestamp =
      some (answer (idx.entries.find? fun e => timestamp ≤ e.timestamp)) := by
  rw [sparseIndexLookup, entries, List.find?_map]
  by_cases hzero : idx.entryCount = 0
  · rw [if_pos hzero, hzero]
    rfl
  · rw [if_neg hzero]
    obtain ⟨last, hlast⟩ := Nat.exists_eq_succ_of_ne_zero hzero
    -- `low + high` does not wrap
    have hwords : 2 * idx.entryCount ≤ 2 ^ 64 := by
      have hmax : 2 * maxEntries ≤ 2 ^ 64 := by decide
      omega
    have hmono : ∀ i j, i ≤ j → j < idx.entryCount →
        decide (timestamp ≤ (idx.file.slots i).timestamp) = true →
          decide (timestamp ≤ (idx.file.slots j).timestamp) = true := by
      intro i j hij hj hi
      exact decide_eq_true ((of_decide_eq_true hi).trans (timestamp_mono hsorted hij hj))
    obtain ⟨k, hsearch, hfirst⟩ := @BinarySearch.search_spec _ _ fuel 0 last _ hwords hmono
      (by omega) (Nat.zero_le _) (fun i hi => absurd hi (Nat.not_lt_zero i))
      (fun h => absurd h (by omega)) (by omega)
    have hfind := hfirst.find?_range
    rw [hlast] at hfind ⊢
    rw [Nat.succ_sub_one, hsearch, Function.comp_def, hfind, Option.map_some]
    by_cases hk : k = last + 1
    · rw [if_pos hk, if_pos hk]
      rfl
    · rw [if_neg hk, if_neg hk]
      rfl

/-- The values of `left` and `right` for which `sparse_index_lookup` runs the body of its loop. -/
def lookupIntervals (idx : SparseIndex) (fuel timestamp : ℕ) : List (ℕ × ℕ) :=
  if idx.entryCount = 0 then []
  else
    BinarySearch.iterations (2 ^ 64) (fun i => timestamp ≤ (idx.file.slots i).timestamp) fuel 0
      (idx.entryCount - 1)

/-- Neither `left + right` nor the address of the entry behind the middle wraps around, and the
middle is the position of an entry. -/
theorem bounds_of_mem_lookupIntervals {fuel timestamp : ℕ} {ends : ℕ × ℕ}
    (hcount : idx.entryCount ≤ maxEntries) (hmem : ends ∈ idx.lookupIntervals fuel timestamp) :
    ends.1 + ends.2 < 2 ^ 64 ∧ ((ends.1 + ends.2) / 2 + 1) * indexEntrySize < 2 ^ 64 ∧
      (ends.1 + ends.2) / 2 < idx.entryCount := by
  rw [lookupIntervals] at hmem
  split_ifs at hmem with hzero
  · exact absurd hmem List.not_mem_nil
  have hmax : maxEntries * indexEntrySize < 2 ^ 64 := by decide
  have hsize : indexEntrySize = 24 := rfl
  rw [hsize] at hmax ⊢
  obtain ⟨hle, hlt⟩ := BinarySearch.bounds_of_mem_iterations (n := idx.entryCount) (by omega)
    (by omega) hmem
  omega

/-- The answer depends on the entries in the middles of the intervals alone. -/
theorem sparseIndexLookup_congr {fuel timestamp : ℕ} {file : IndexFile}
    (hcount : idx.entryCount ≤ maxEntries)
    (h : ∀ ends ∈ idx.lookupIntervals fuel timestamp,
      file.slots ((ends.1 + ends.2) / 2) = idx.file.slots ((ends.1 + ends.2) / 2)) :
    sparseIndexLookup fuel { idx with file } timestamp = sparseIndexLookup fuel idx timestamp := by
  have hmid : ∀ ends ∈ idx.lookupIntervals fuel timestamp,
      file.slots ((ends.1 + ends.2) % 2 ^ 64 / 2) =
        idx.file.slots ((ends.1 + ends.2) % 2 ^ 64 / 2) := by
    intro ends hends
    rw [Nat.mod_eq_of_lt (bounds_of_mem_lookupIntervals hcount hends).1]
    exact h ends hends
  rw [sparseIndexLookup, sparseIndexLookup]
  rw [lookupIntervals] at hmid
  by_cases hzero : idx.entryCount = 0
  · rw [if_pos hzero, if_pos hzero]
  rw [if_neg hzero] at hmid
  rw [if_neg hzero, if_neg hzero,
    BinarySearch.search_congr (p := fun i => decide (timestamp ≤ (idx.file.slots i).timestamp))
      fun ends hends => by rw [hmid ends hends]]
  refine Option.map_congr fun k hk => ?_
  -- a position other than the initial one is a middle itself
  rcases BinarySearch.mem_iterations_of_search hk with rfl | ⟨ends, hends, rfl⟩
  · rw [if_pos rfl, if_pos rfl]
  · rw [hmid ends hends]

/-- **Lower bound.** Of entries in the order of time the search returns the first that is not before
`timestamp`, or `MQ_NOT_FOUND` if there is none. It ends after at most `entryCount` iterations; in
each of them the arithmetic is exact, and all it reads are the entries in the middles. -/
theorem sparseIndexLookup_lowerBound {fuel : ℕ} (timestamp : ℕ)
    (hcount : idx.entryCount ≤ maxEntries)
    (hsorted : idx.entries.Pairwise fun e e' => e.timestamp ≤ e'.timestamp)
    (hfuel : idx.entryCount < fuel) :
    (∀ ends ∈ idx.lookupIntervals fuel timestamp,
        ends.1 + ends.2 < 2 ^ 64 ∧ ((ends.1 + ends.2) / 2 + 1) * indexEntrySize < 2 ^ 64 ∧
          (ends.1 + ends.2) / 2 < idx.entryCount) ∧
      (∀ file : IndexFile,
        (∀ ends ∈ idx.lookupIntervals fuel timestamp,
          file.slots ((ends.1 + ends.2) / 2) = idx.file.slots ((ends.1 + ends.2) / 2)) →
        sparseIndexLookup fuel { idx with file } timestamp =
          sparseIndexLookup fuel idx timestamp) ∧
      ∃ result, sparseIndexLookup fuel idx timestamp = some result ∧
        (result = .error .notFound ↔
          ∀ i < idx.entryCount, (idx.file.slots i).timestamp < timestamp) ∧
        ∀ entry, result = .ok entry ↔
          ∃ k < idx.entryCount, entry = idx.file.slots k ∧
            timestamp ≤ (idx.file.slots k).timestamp ∧
            ∀ i < k, (idx.file.slots i).timestamp < timestamp := by
  refine ⟨fun ends => bounds_of_mem_lookupIntervals hcount,
    fun file => sparseIndexLookup_congr hcount, _,
    sparseIndexLookup_eq hcount hsorted hfuel, ?_, fun entry => ?_⟩
  · rw [answer_eq_notFound, entries, List.find?_map, Option.map_eq_none_iff,
      List.find?_range_eq_none]
    simp
  · rw [answer_eq_ok, entries, List.find?_map, Option.map_eq_some_iff]
    constructor
    · rintro ⟨k, hk, rfl⟩
      obtain ⟨hlate, hlt, hbefore⟩ := List.find?_range_eq_some.mp hk
      refine ⟨k, List.mem_range.mp hlt, rfl, of_decide_eq_true hlate, fun i hi => ?_⟩
      simpa using hbefore i hi
    · rintro ⟨k, hlt, rfl, hlate, hbefore⟩
      refine ⟨k, List.find?_range_eq_some.mpr ⟨decide_eq_true hlate, List.mem_range.mpr hlt, ?_⟩,
        rfl⟩
      intro i hi
      simpa using hbefore i hi

/-- A new index after calls for the times 3, 5, 5 and 8. -/
def fourEntries : SparseIndex :=
  [(0, 3), (10, 5), (20, 5), (30, 8)].foldl (fun idx e => (sparseIndexPut idx e.1 10 e.2).1)
    (sparseIndexOpen .empty)

/-- Three of its entries are not before time 4, and the first of them is returned. -/
theorem sparseIndexLookup_fourEntries :
    ∃ result, sparseIndexLookup 5 fourEntries 4 = some result ∧
      result = .ok { offset := 10, size := 10, timestamp := 5 } := by
  obtain ⟨-, -, result, hlookup, -, hok⟩ :=
    @sparseIndexLookup_lowerBound fourEntries 5 4 (by decide) (by decide) (by decide)
  exact ⟨result, hlookup, (hok _).mpr ⟨1, by decide, rfl, by decide, by decide⟩⟩

/-- A call of `sparse_index_put` that succeeds, with its arguments in their ranges. -/
def step (idx : SparseIndex) (entry : IndexEntry) : Option SparseIndex :=
  if entry.offset < 2 ^ 64 ∧ entry.size < 2 ^ 32 ∧ entry.timestamp < 2 ^ 64 then
    match sparseIndexPut idx entry.offset entry.size entry.timestamp with
    | (idx', .ok _) => some idx'
    | (_, .error _) => none
  else none

/-- The index has been made from a new file. -/
def Filled (idx : SparseIndex) : Prop :=
  Run step (fun _ _ _ => True) (sparseIndexOpen .empty) idx

theorem step_eq_some {entry : IndexEntry} (h : idx.step entry = some idx') :
    idx.entryCount < maxEntries ∧
      (sparseIndexPut idx entry.offset entry.size entry.timestamp).1 = idx' := by
  rw [step, sparseIndexPut] at h
  split_ifs at h with hrange hfull
  rw [sparseIndexPut, if_neg hfull]
  exact ⟨not_le.mp hfull, Option.some.inj h⟩

/-- **Putting** adds to the entries. -/
theorem entries_put (h : idx.entryCount < maxEntries) (offset size timestamp : ℕ) :
    (sparseIndexPut idx offset size timestamp).1.entries =
      idx.entries ++ [⟨offset, size, timestamp⟩] := by
  rw [sparseIndexPut, if_neg (not_le.mpr h), entries, entries]
  dsimp only [IndexFile.write]
  rw [List.range_succ, List.map_append, List.map_singleton, if_pos rfl]
  congr 1
  exact List.map_congr_left fun i hi => if_neg (List.mem_range.mp hi).ne

end SparseIndex

/-- **Invariant**: the file has been extended, the last offset is that of the last entry, and behind
the entries the file is empty. -/
structure IndexInv (idx : SparseIndex) : Prop where
  size_eq : idx.file.size = maxEntries * indexEntrySize
  le : idx.entryCount ≤ maxEntries
  lastOffset_eq : idx.lastOffset =
    if 0 < idx.entryCount then (idx.file.slots (idx.entryCount - 1)).offset else 0
  rest : ∀ i, idx.entryCount ≤ i → idx.file.slots i = .zero

namespace IndexInv

variable {idx idx' : SparseIndex}

theorem of_open : IndexInv (sparseIndexOpen .empty) where
  size_eq := rfl
  le := Nat.zero_le _
  lastOffset_eq := rfl
  rest := fun _ => IndexFile.slots_extend_of_le

theorem put (h : IndexInv idx) (hroom : idx.entryCount < maxEntries)
    (offset size timestamp : ℕ) : IndexInv (sparseIndexPut idx offset size timestamp).1 := by
  rw [sparseIndexPut, if_neg (not_le.mpr hroom)]
  refine ⟨h.size_eq, hroom, ?_, fun i hi => ?_⟩
  · dsimp only [IndexFile.write]
    rw [if_pos (Nat.succ_pos _), Nat.add_sub_cancel, if_pos rfl]
  · have hlt : idx.entryCount < i := hi
    exact (if_neg hlt.ne').trans (h.rest i hlt.le)

/-- An entry that fits into the file leaves the rest of it empty. -/
theorem step {entry : IndexEntry} (h : IndexInv idx) (hst : idx.step entry = some idx') :
    IndexInv idx' := by
  obtain ⟨hroom, rfl⟩ := SparseIndex.step_eq_some hst
  exact h.put hroom _ _ _

theorem of_filled (h : idx.Filled) : IndexInv idx := by
  refine Run.invariant (P := IndexInv) of_open ?_ h
  exact fun _ _ _ hinv _ hst => hinv.step hst

/-- **Reopening.** The file is as it was, and every slot of it is an entry. -/
theorem reopened (h : IndexInv idx) :
    sparseIndexOpen (sparseIndexClose idx) =
      { entryCount := maxEntries
        lastOffset := (idx.file.slots (maxEntries - 1)).offset
        file := idx.file } := by
  have hcount : maxEntries * indexEntrySize / indexEntrySize = maxEntries := by decide
  have hpos : 0 < maxEntries := by decide
  rw [sparseIndexOpen, sparseIndexClose, h.size_eq, hcount, if_neg (lt_irrefl _), if_pos hpos]

theorem entries_reopened (h : IndexInv idx) :
    (sparseIndexOpen (sparseIndexClose idx)).entries =
      idx.entries ++ List.replicate (maxEntries - idx.entryCount) .zero := by
  obtain ⟨rest, hrest⟩ := Nat.exists_eq_add_of_le h.le
  rw [h.reopened, SparseIndex.entries, SparseIndex.entries]
  dsimp only
  rw [hrest, List.range_add, List.map_append, Nat.add_sub_cancel_left]
  congr 1
  refine List.eq_replicate_iff.mpr ⟨?_, fun entry hentry => ?_⟩
  · rw [List.length_map, List.length_map, List.length_range]
  · obtain ⟨i, hi, rfl⟩ := List.mem_map.mp hentry
    obtain ⟨j, -, rfl⟩ := List.mem_map.mp hi
    exact h.rest _ (Nat.le_add_right _ _)

end IndexInv

end DistributedMQ.CStorage
