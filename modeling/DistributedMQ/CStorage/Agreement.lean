import DistributedMQ.CStorage.SparseIndex
import DistributedMQ.Lib.BigEndian
import DistributedMQ.Storage.SparseIndex

/-!
# The two indexes (`storage/bridge_go.go` lines 313–356, `sparse_index.c` lines 94–160)

The index in Go is a map that is searched as a whole, the one in C an array with a binary search.
Both get the same calls of `Put`, in the order of the offsets and of the time, and the same
queries; numbers are converted as Go converts between signed and unsigned ones.

They agree about `Get` and `GetLastOffset`. `Lookup` is another function in each: the last entry
that is not after a time in Go, and the first that is not before it in C. So they agree about the
times of the entries, about negative ones, and if there is no entry (`index_answers_agree_iff`).
-/

namespace DistributedMQ.CStorage

open BigEndian

/-- The entries that are put, in this order. -/
structure Puts (es : List Storage.IndexEntry) : Prop where
  increasing : es.Pairwise fun e e' => e.offset < e'.offset ∧ e.timestamp < e'.timestamp
  offset_lt : ∀ e ∈ es, e.offset < 2 ^ 63
  size_fits : ∀ e ∈ es, Fits 32 e.size
  timestamp_lt : ∀ e ∈ es, e.timestamp < 2 ^ 63
  room : es.length < maxEntries

/-- The index in Go after the puts. -/
def goIndex (es : List Storage.IndexEntry) : Storage.SparseIndex :=
  es.foldl (fun idx e => idx.put e.offset e.size e.timestamp) .openSparseIndex

/-- The index in C after the puts. -/
def cIndex (es : List Storage.IndexEntry) : SparseIndex :=
  es.foldl (fun idx e => (sparseIndexPut idx e.offset (toUnsigned 32 e.size) e.timestamp).1)
    (sparseIndexOpen .empty)

/-- An entry of the index in C, as a caller in Go has it. -/
def goEntry (e : IndexEntry) : Storage.IndexEntry where
  offset := e.offset
  size := toSigned 32 e.size
  timestamp := e.timestamp

/-- An entry as it is put into the index in C. -/
def cEntry (e : Storage.IndexEntry) : IndexEntry where
  offset := e.offset
  size := toUnsigned 32 e.size
  timestamp := e.timestamp

theorem goEntry_cEntry {e : Storage.IndexEntry} (h : Fits 32 e.size) : goEntry (cEntry e) = e := by
  rw [goEntry, cEntry]
  dsimp only
  rw [toSigned_toUnsigned (by decide) h]

/-- The same entry, or none in both. -/
inductive SameAnswer : Except String Storage.IndexEntry → Except Status IndexEntry → Prop where
  | found (e : IndexEntry) : SameAnswer (.ok (goEntry e)) (.ok e)
  | notFound : SameAnswer (.error "not found") (.error .notFound)

/-- The answers are the same iff the entries are that they were made from. -/
theorem sameAnswer_iff {found found' : Option Storage.IndexEntry}
    (hfits : ∀ e, found' = some e → Fits 32 e.size) :
    SameAnswer (Storage.SparseIndex.entryOrError found) (answer (found'.map cEntry)) ↔
      found = found' := by
  constructor
  · intro h
    cases found with
    | none =>
      cases found' with
      | none => rfl
      | some e' => cases h
    | some e =>
      cases found' with
      | none => cases h
      | some e' =>
        have he' := goEntry_cEntry (hfits e' rfl)
        obtain rfl : e = goEntry (cEntry e') := by cases h; rfl
        rw [he']
  · rintro rfl
    cases found with
    | none => exact .notFound
    | some e =>
      have hsame := SameAnswer.found (cEntry e)
      rwa [goEntry_cEntry (hfits e rfl)] at hsame

/-- A query in C is the same number, or larger than any that was put. -/
theorem query_cases {z : ℤ} (h : Fits 64 z) :
    0 ≤ z ∧ toUnsigned 64 z = z.toNat ∨ z < 0 ∧ 2 ^ 63 ≤ toUnsigned 64 z := by
  obtain ⟨hle, hlt⟩ := h
  rw [toUnsigned]
  norm_num at hle hlt ⊢
  omega

section concat

variable (es : List Storage.IndexEntry) (e : Storage.IndexEntry)

theorem goIndex_concat :
    goIndex (es ++ [e]) = (goIndex es).put e.offset e.size e.timestamp := by
  rw [goIndex, List.foldl_append]
  rfl

theorem cIndex_concat :
    cIndex (es ++ [e]) =
      (sparseIndexPut (cIndex es) e.offset (toUnsigned 32 e.size) e.timestamp).1 := by
  rw [cIndex, List.foldl_append]
  rfl

end concat

namespace Puts

variable {es : List Storage.IndexEntry} {e : Storage.IndexEntry}

theorem of_concat (h : Puts (es ++ [e])) : Puts es where
  increasing := (List.pairwise_append.mp h.increasing).1
  offset_lt := fun e' he' => h.offset_lt e' (List.mem_append_left _ he')
  size_fits := fun e' he' => h.size_fits e' (List.mem_append_left _ he')
  timestamp_lt := fun e' he' => h.timestamp_lt e' (List.mem_append_left _ he')
  room := by
    have hroom := h.room
    rw [List.length_append] at hroom
    exact (Nat.le_add_right _ _).trans_lt hroom

theorem last_lt (h : Puts (es ++ [e])) {e' : Storage.IndexEntry} (he' : e' ∈ es) :
    e'.offset < e.offset :=
  ((List.pairwise_append.mp h.increasing).2.2 e' he' e (List.mem_singleton_self e)).1

/-- **The map** has the entries that were put. -/
theorem values_perm (h : Puts es) : (GoMap.values (goIndex es).entries).Perm es := by
  induction es using List.reverseRecOn with
  | nil => exact List.Perm.refl _
  | append_singleton es e ih =>
    have hperm := ih h.of_concat
    have hfresh : (goIndex es).entries.lookup e.offset = none := by
      cases hlookup : (goIndex es).entries.lookup e.offset with
      | none => rfl
      | some e' =>
        have hoffset := (goIndex es).keyed _ _ hlookup
        have hmem := Storage.SparseIndex.mem_values_iff.mpr (hoffset.symm ▸ hlookup)
        exact absurd hoffset (h.last_lt (hperm.mem_iff.mp hmem)).ne
    rw [goIndex_concat, Storage.SparseIndex.values_put hfresh]
    exact (hperm.cons e).trans (List.perm_append_singleton e es).symm

/-- **The array** has them in their order. -/
theorem entries_eq (h : Puts es) : (cIndex es).entries = es.map cEntry := by
  induction es using List.reverseRecOn with
  | nil => rfl
  | append_singleton es e ih =>
    have hentries := ih h.of_concat
    have hroom : (cIndex es).entryCount < maxEntries := by
      rw [← SparseIndex.length_entries, hentries, List.length_map]
      exact h.of_concat.room
    rw [cIndex_concat, SparseIndex.entries_put hroom, hentries, List.map_append]
    rfl

theorem entryCount_eq (h : Puts es) : (cIndex es).entryCount = es.length := by
  rw [← SparseIndex.length_entries, h.entries_eq, List.length_map]

/-! ## `Get` -/

theorem lookup_eq (h : Puts es) (offset : ℕ) :
    (goIndex es).entries.lookup offset = es.find? fun e => e.offset = offset := by
  have hmem : ∀ e ∈ es, (goIndex es).entries.lookup e.offset = some e := fun e he =>
    Storage.SparseIndex.mem_values_iff.mp (h.values_perm.mem_iff.mpr he)
  cases hfind : es.find? fun e => e.offset = offset with
  | some e =>
    have hoffset : e.offset = offset := by
      simpa only [decide_eq_true_eq] using List.find?_some hfind
    exact hoffset ▸ hmem e (List.mem_of_find?_eq_some hfind)
  | none =>
    cases hlookup : (goIndex es).entries.lookup offset with
    | none => rfl
    | some e =>
      have hoffset := (goIndex es).keyed _ _ hlookup
      have hvalue := Storage.SparseIndex.mem_values_iff.mpr (hoffset.symm ▸ hlookup)
      have hne := List.find?_eq_none.mp hfind e (h.values_perm.mem_iff.mp hvalue)
      exact absurd (decide_eq_true hoffset) hne

theorem get_agrees (h : Puts es) {offset : ℤ} (hfits : Fits 64 offset) :
    SameAnswer ((goIndex es).get offset)
      (sparseIndexGet (cIndex es) (toUnsigned 64 offset)) := by
  rw [SparseIndex.sparseIndexGet_eq, h.entries_eq, List.find?_map, Storage.SparseIndex.get]
  refine (sameAnswer_iff fun e he => h.size_fits e (List.mem_of_find?_eq_some he)).mpr ?_
  rcases query_cases hfits with ⟨hpos, hquery⟩ | ⟨hneg, hquery⟩
  · rw [if_pos hpos, h.lookup_eq, hquery]
    rfl
  · rw [if_neg (not_le.mpr hneg), eq_comm, List.find?_eq_none]
    intro e he
    have hlt := h.offset_lt e he
    exact fun heq => absurd (of_decide_eq_true heq) (hlt.trans_le hquery).ne

/-! ## `GetLastOffset` -/

theorem getLastOffset_agrees (h : Puts es) {offsets : List ℕ}
    (hoffsets : (goIndex es).KeyOrder offsets) :
    Storage.SparseIndex.getLastOffset offsets = sparseIndexGetLastOffset (cIndex es) := by
  obtain ⟨hmax, hmem⟩ := Storage.SparseIndex.getLastOffset_spec offsets
  have hperm : offsets.Perm (es.map Storage.IndexEntry.offset) := by
    refine hoffsets.trans ?_
    rw [← Storage.SparseIndex.map_offset_values]
    exact h.values_perm.map _
  rcases List.eq_nil_or_concat' es with rfl | ⟨init, last, rfl⟩
  · rw [hperm.eq_nil]
    rfl
  -- in C it is the offset of the last put, which is the largest one
  · have hroom : ¬ maxEntries ≤ (cIndex init).entryCount := by
      rw [h.of_concat.entryCount_eq, not_le]
      exact h.of_concat.room
    have hlast : sparseIndexGetLastOffset (cIndex (init ++ [last])) = last.offset := by
      rw [cIndex_concat, sparseIndexPut, if_neg hroom]
      rfl
    have hle := hmax last.offset (hperm.mem_iff.mpr (by simp))
    rw [hlast]
    refine le_antisymm ?_ hle
    rcases hmem with hmem | hzero
    · obtain ⟨e, he, heq⟩ := List.mem_map.mp (hperm.mem_iff.mp hmem)
      rw [← heq]
      rcases List.mem_append.mp he with hinit | hnew
      · exact (h.last_lt hinit).le
      · rw [List.mem_singleton.mp hnew]
    · rw [hzero]
      exact Nat.zero_le _

/-! ## `Lookup` -/

/-- The first entry that is not before a time, if the time is that of an entry. -/
theorem find?_timestamp (h : Puts es) (he : e ∈ es) :
    (es.find? fun e' => e.timestamp ≤ e'.timestamp) = some e := by
  obtain ⟨before, after, rfl⟩ := List.append_of_mem he
  refine List.find?_eq_some_iff_append.mpr ⟨by simp, before, after, rfl, fun e' he' => ?_⟩
  have hlt := (List.pairwise_append.mp h.increasing).2.2 e' he' e List.mem_cons_self
  simpa using hlt.2

theorem eq_of_timestamp (h : Puts es) {e' : Storage.IndexEntry} (he : e ∈ es) (he' : e' ∈ es)
    (heq : e.timestamp = e'.timestamp) : e = e' := by
  have hnodup : (es.map Storage.IndexEntry.timestamp).Nodup :=
    List.pairwise_map.mpr (h.increasing.imp fun hlt => hlt.2.ne)
  exact List.inj_on_of_nodup_map hnodup he he' heq

section lookup

variable {order : List Storage.IndexEntry} {timestamp : ℤ} {query : ℕ}

/-- **Go and C** find the same entry at the time of an entry. -/
theorem latest_eq_of_stored (h : Puts es) (horder : order.Perm es) (he : e ∈ es) :
    order.foldl (Storage.SparseIndex.better e.timestamp) none =
      es.find? fun e' => e.timestamp ≤ e'.timestamp := by
  obtain ⟨hmem, hmost⟩ := Storage.SparseIndex.isLatest_foldl order e.timestamp
  obtain ⟨b, hb, hle⟩ := hmost e (horder.mem_iff.mpr he) (le_refl _)
  obtain ⟨hbmem, hble⟩ := hmem b hb
  have heq : b.timestamp = e.timestamp := le_antisymm (Int.ofNat_le.mp hble) hle
  rw [hb, h.find?_timestamp he, h.eq_of_timestamp (horder.mem_iff.mp hbmem) he heq]

/-- A time at which both find the same is that of an entry, if there is one. -/
theorem stored_of_latest_eq (horder : order.Perm es) (hne : es ≠ [])
    (heq : order.foldl (Storage.SparseIndex.better query) none =
      es.find? fun e => query ≤ e.timestamp) :
    ∃ e ∈ es, e.timestamp = query := by
  obtain ⟨hmem, hmost⟩ := Storage.SparseIndex.isLatest_foldl order query
  cases hfind : es.find? fun e => query ≤ e.timestamp with
  | some e =>
    -- neither after it nor before it
    have hle := (hmem e (heq.trans hfind)).2
    have hge : query ≤ e.timestamp := by simpa only [decide_eq_true_eq] using List.find?_some hfind
    exact ⟨e, List.mem_of_find?_eq_some hfind, le_antisymm (Int.ofNat_le.mp hle) hge⟩
  | none =>
    -- all entries are before it, and then one of them is the last
    obtain ⟨e, he⟩ := List.exists_mem_of_ne_nil es hne
    have hlt : ¬ query ≤ e.timestamp := by
      simpa only [decide_eq_true_eq] using List.find?_eq_none.mp hfind e he
    obtain ⟨b, hb, -⟩ := hmost e (horder.mem_iff.mpr he) (Int.ofNat_le.mpr (not_le.mp hlt).le)
    rw [heq, hfind] at hb
    cases hb

/-- Neither finds an entry at a negative time. -/
theorem latest_eq_of_neg (h : Puts es) (hneg : timestamp < 0) (hquery : 2 ^ 63 ≤ query) :
    order.foldl (Storage.SparseIndex.better timestamp) none =
      es.find? fun e => query ≤ e.timestamp := by
  have hfind : (es.find? fun e => query ≤ e.timestamp) = none := by
    refine List.find?_eq_none.mpr fun e he => ?_
    have hlt := h.timestamp_lt e he
    exact fun hle => absurd (of_decide_eq_true hle) (not_le.mpr (hlt.trans_le hquery))
  rw [hfind]
  cases hbest : order.foldl (Storage.SparseIndex.better timestamp) none with
  | none => rfl
  | some b =>
    have hle := ((Storage.SparseIndex.isLatest_foldl order timestamp).mem b hbest).2
    omega

theorem latest_eq_iff (h : Puts es) (horder : order.Perm es) (hfits : Fits 64 timestamp) :
    order.foldl (Storage.SparseIndex.better timestamp) none =
        (es.find? fun e => toUnsigned 64 timestamp ≤ e.timestamp) ↔
      es = [] ∨ timestamp < 0 ∨ ∃ e ∈ es, (e.timestamp : ℤ) = timestamp := by
  rcases query_cases hfits with ⟨hpos, hquery⟩ | ⟨hneg, hquery⟩
  · obtain ⟨query, rfl⟩ := Int.eq_ofNat_of_zero_le hpos
    rw [hquery, Int.toNat_natCast]
    constructor
    · intro heq
      by_cases hnil : es = []
      · exact .inl hnil
      · obtain ⟨e, he, htime⟩ := stored_of_latest_eq horder hnil heq
        exact .inr (.inr ⟨e, he, congrArg Nat.cast htime⟩)
    · rintro (rfl | hneg | ⟨e, he, htime⟩)
      · rw [horder.eq_nil]
        rfl
      · exact absurd hpos (not_le.mpr hneg)
      · obtain rfl := Int.ofNat_inj.mp htime
        exact h.latest_eq_of_stored horder he
  · exact iff_of_true (h.latest_eq_of_neg hneg hquery) (.inr (.inl hneg))

theorem sparseIndexLookup_eq (h : Puts es) {fuel : ℕ} (hfuel : es.length < fuel) (query : ℕ) :
    sparseIndexLookup fuel (cIndex es) query =
      some (answer ((es.find? fun e => query ≤ e.timestamp).map cEntry)) := by
  have hcount := h.entryCount_eq
  have hsorted : (cIndex es).entries.Pairwise fun e e' => e.timestamp ≤ e'.timestamp := by
    rw [h.entries_eq, List.pairwise_map]
    exact h.increasing.imp fun hlt => hlt.2.le
  rw [SparseIndex.sparseIndexLookup_eq (hcount ▸ h.room.le) hsorted (hcount ▸ hfuel),
    h.entries_eq, List.find?_map]
  rfl

end lookup

end Puts

/-- **Agreement.** `Get` and `GetLastOffset` have the same answers in both; `Lookup` has them iff
there is no entry, or the time is negative or that of an entry. -/
theorem index_answers_agree_iff {es order : List Storage.IndexEntry} {offsets : List ℕ}
    (hputs : Puts es) (horder : (goIndex es).Order order)
    (hoffsets : (goIndex es).KeyOrder offsets) :
    (∀ offset, Fits 64 offset →
      SameAnswer ((goIndex es).get offset)
        (sparseIndexGet (cIndex es) (toUnsigned 64 offset))) ∧
    Storage.SparseIndex.getLastOffset offsets = sparseIndexGetLastOffset (cIndex es) ∧
    ∀ fuel timestamp, es.length < fuel → Fits 64 timestamp →
      ∃ found, sparseIndexLookup fuel (cIndex es) (toUnsigned 64 timestamp) = some found ∧
        (SameAnswer (Storage.SparseIndex.lookup order timestamp) found ↔
          es = [] ∨ timestamp < 0 ∨ ∃ e ∈ es, (e.timestamp : ℤ) = timestamp) := by
  refine ⟨fun offset => hputs.get_agrees, hputs.getLastOffset_agrees hoffsets, ?_⟩
  intro fuel timestamp hfuel hfits
  refine ⟨_, hputs.sparseIndexLookup_eq hfuel _, ?_⟩
  rw [Storage.SparseIndex.lookup, sameAnswer_iff]
  · exact hputs.latest_eq_iff (horder.trans hputs.values_perm) hfits
  · exact fun e he => hputs.size_fits e (List.mem_of_find?_eq_some he)

/-- Two entries, and the time of the second: both indexes find it. -/
theorem index_answers_agree_two :
    ∃ es : List Storage.IndexEntry, es.length = 2 ∧ Puts es ∧
      ∃ found, sparseIndexLookup 3 (cIndex es) 9 = some found ∧
        SameAnswer (Storage.SparseIndex.lookup (GoMap.values (goIndex es).entries) 9) found := by
  have hputs : Puts [⟨0, 3, 5⟩, ⟨3, 4, 9⟩] := by
    constructor <;> decide
  obtain ⟨-, -, hlookup⟩ := index_answers_agree_iff hputs (List.Perm.refl _) (List.Perm.refl _)
  obtain ⟨found, hfound, hsame⟩ := hlookup 3 9 (by decide) (by decide)
  exact ⟨_, rfl, hputs, found, hfound, hsame.mpr (by decide)⟩

/-- With one entry at time 5, `Lookup` of 6 finds it in Go and nothing in C, and `Lookup` of 4 finds
it in C and nothing in Go. -/
theorem lookup_differs : Puts [⟨0, 3, 5⟩] ∧
    Storage.SparseIndex.lookup (GoMap.values (goIndex [⟨0, 3, 5⟩]).entries) 6 = .ok ⟨0, 3, 5⟩ ∧
    sparseIndexLookup 2 (cIndex [⟨0, 3, 5⟩]) 6 = some (.error .notFound) ∧
    Storage.SparseIndex.lookup (GoMap.values (goIndex [⟨0, 3, 5⟩]).entries) 4 =
      .error "not found" ∧
    sparseIndexLookup 2 (cIndex [⟨0, 3, 5⟩]) 4 = some (.ok ⟨0, 3, 5⟩) := by
  refine ⟨?_, by decide +kernel, by decide +kernel, by decide +kernel, by decide +kernel⟩
  constructor <;> decide

end DistributedMQ.CStorage
