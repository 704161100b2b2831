import Mathlib.Data.List.ReduceOption
import Mathlib.Tactic.Linarith

/-!
# Growing slices over shared backing arrays

A Go slice is a window into a backing array. `append` writes into the array
while there is room behind the last element and moves to a fresh array when
there is none; `s[:n]` shortens the window and leaves the array as it is; and
`s[lo:]` is a second window into the *same* array, so that a later
`append(s[:n], x)` is visible through it.

- `GoSlice α`: the elements of the window, the slots of the array behind them
  (`none` is a slot never written), and the arrays the slice has moved away
  from.
- `GoSlice.append`, `GoSlice.trunc`, `GoSlice.view`, `GoSlice.read`: `append(s, x)`,
  `s[:n]`, `s[lo:]`, and what such a window reads now.
- `GoSlice.read_append`, `GoSlice.read_trunc_append`: a window inside the current
  elements does not see an append; it does not see an overwrite either if the
  overwritten slot lies behind it.
- `GoSlice.Leftover`: what is left of a window that lies behind the elements, as after
  `s[:0]`; `Leftover.append` and `Leftover.append_at` say when it sees an append.
-/

universe u

/-- How much room the runtime leaves behind the last element when `append`
moves a slice of a given length to a new array. -/
class GrowthPolicy where
  headroom : ℕ → ℕ

namespace GrowthPolicy

/-- The array is doubled, as the runtime does for short slices. -/
scoped instance doubling : GrowthPolicy := ⟨fun n => n - 1⟩

end GrowthPolicy

/-- A slice that starts at slot 0 of its backing array. -/
structure GoSlice (α : Type u) where
  /-- The elements `s[0], …, s[len(s)-1]`. -/
  elems : List α
  /-- The slots of the backing array from `len(s)` to `cap(s)`. -/
  spare : List (Option α)
  /-- The backing arrays used before the current one. -/
  retired : List (List (Option α))
deriving DecidableEq

/-- A window `s[lo:lo+len]` into the backing array number `base`. -/
structure GoWindow where
  base : ℕ
  lo : ℕ
  len : ℕ
deriving DecidableEq

/-- The window without its first slot. -/
def GoWindow.tail (v : GoWindow) : GoWindow := ⟨v.base, v.lo + 1, v.len - 1⟩

namespace GoSlice

variable {α : Type u}

/-- A slice literal: the array is exactly as long as the slice. -/
def ofList (l : List α) : GoSlice α := ⟨l, [], []⟩

def len (s : GoSlice α) : ℕ := s.elems.length

/-- The current backing array. -/
def array (s : GoSlice α) : List (Option α) := s.elems.map some ++ s.spare

/-- The number of the current backing array. -/
def base (s : GoSlice α) : ℕ := s.retired.length

/-- `append(s, x)`. -/
def append [GrowthPolicy] (s : GoSlice α) (x : α) : GoSlice α :=
  match s.spare with
  | [] =>
    { elems := s.elems ++ [x]
      spare := List.replicate (GrowthPolicy.headroom s.len) none
      retired := s.retired ++ [s.array] }
  | _ :: rest => { s with elems := s.elems ++ [x], spare := rest }

/-- The slots behind a slice of length `n` and the arrays it has left, after it
has taken `k` more elements of `all`, one at a time. -/
def grow [GrowthPolicy] (all : List α) (n : ℕ) (spare : List (Option α))
    (retired : List (List (Option α))) : ℕ → List (Option α) × List (List (Option α))
  | 0 => (spare, retired)
  | k + 1 =>
    match spare with
    | [] =>
      grow all (n + 1) (List.replicate (GrowthPolicy.headroom n) none)
        (retired ++ [(all.take n).map some]) k
    | _ :: rest => grow all (n + 1) rest retired k

/-- `append(s, x₁)`, `append(s, x₂)` and so on: one element at a time
(`appendAll_cons`). -/
def appendAll [GrowthPolicy] (s : GoSlice α) (xs : List α) : GoSlice α :=
  let room := grow (s.elems ++ xs) s.len s.spare s.retired xs.length
  { elems := s.elems ++ xs, spare := room.1, retired := room.2 }

/-- `s[:n]`: the cut elements stay in the array. -/
def trunc (s : GoSlice α) (n : ℕ) : GoSlice α :=
  { s with elems := s.elems.take n, spare := (s.elems.drop n).map some ++ s.spare }

/-- `s[lo:]`. -/
def view (s : GoSlice α) (lo : ℕ) : GoWindow := ⟨s.base, lo, s.len - lo⟩

/-- The array a window looks into. -/
def arrayOf (s : GoSlice α) (v : GoWindow) : List (Option α) :=
  if v.base = s.base then s.array else s.retired.getD v.base []

/-- The elements a window reads now. -/
def read (s : GoSlice α) (v : GoWindow) : List α :=
  ((s.arrayOf v).drop v.lo |>.take v.len).reduceOption

/-- The window lies in an earlier array or inside the current elements. -/
structure Inside (s : GoSlice α) (v : GoWindow) : Prop where
  base_le : v.base ≤ s.base
  hi_le : v.base = s.base → v.lo + v.len ≤ s.len

@[simp] theorem elems_ofList (l : List α) : (ofList l).elems = l := rfl

theorem append_full [GrowthPolicy] {s : GoSlice α} (h : s.spare = []) (x : α) :
    s.append x =
      { elems := s.elems ++ [x]
        spare := List.replicate (GrowthPolicy.headroom s.len) none
        retired := s.retired ++ [s.array] } := by
  simp only [append, h]

theorem append_room [GrowthPolicy] {s : GoSlice α} {slot : Option α} {rest : List (Option α)}
    (h : s.spare = slot :: rest) (x : α) :
    s.append x = { elems := s.elems ++ [x], spare := rest, retired := s.retired } := by
  simp only [append, h]

@[simp] theorem elems_append [GrowthPolicy] (s : GoSlice α) (x : α) :
    (s.append x).elems = s.elems ++ [x] := by
  unfold append
  cases s.spare <;> rfl

@[simp] theorem elems_trunc (s : GoSlice α) (n : ℕ) : (s.trunc n).elems = s.elems.take n := rfl

@[simp] theorem elems_appendAll [GrowthPolicy] (s : GoSlice α) (xs : List α) :
    (s.appendAll xs).elems = s.elems ++ xs := rfl

theorem base_append_le [GrowthPolicy] (s : GoSlice α) (x : α) : s.base ≤ (s.append x).base := by
  unfold append base
  cases s.spare <;> simp

/-- A fresh window reads the elements from its start on. -/
theorem read_view (s : GoSlice α) (lo : ℕ) : s.read (s.view lo) = s.elems.drop lo := by
  have harr : s.arrayOf (s.view lo) = s.elems.map some ++ s.spare := by
    simp [arrayOf, view, array]
  have htake : ((s.elems.map some ++ s.spare).drop lo).take (s.len - lo)
      = (s.elems.drop lo).map some := by
    rw [List.drop_append, List.take_append_of_le_length (by simp [len])]
    rw [List.take_of_length_le (by simp [len]), List.map_drop]
  unfold read
  rw [harr]
  show (((s.elems.map some ++ s.spare).drop lo).take (s.len - lo)).reduceOption = _
  rw [htake]
  simp [List.reduceOption]

theorem inside_view (s : GoSlice α) {lo : ℕ} (h : lo ≤ s.len) : s.Inside (s.view lo) :=
  ⟨le_rfl, fun _ => by simp only [view]; omega⟩

theorem arrayOf_current {s : GoSlice α} {v : GoWindow} (h : v.base = s.base) :
    s.arrayOf v = s.array := if_pos h

theorem arrayOf_retired {s : GoSlice α} {v : GoWindow} (h : v.base ≠ s.base) :
    s.arrayOf v = s.retired.getD v.base [] := if_neg h

/-- An append moves the slice to a new array or writes behind its elements;
either way a window inside the elements keeps its array's first slots. -/
theorem arrayOf_append_take [GrowthPolicy] {s : GoSlice α} {v : GoWindow} (h : s.Inside v)
    (x : α) :
    ((s.append x).arrayOf v).take (v.lo + v.len) = (s.arrayOf v).take (v.lo + v.len) := by
  obtain ⟨hbase, hhi⟩ := h
  cases hsp : s.spare with
  | nil =>
    rw [append_full hsp]
    rw [arrayOf_retired (by simp only [base, List.length_append] at hbase ⊢; simp; omega)]
    by_cases hv : v.base = s.base
    · -- the window looks into the array that has just been retired
      rw [arrayOf_current hv, hv]
      simp [base]
    · have hlt : v.base < s.retired.length := lt_of_le_of_ne hbase hv
      rw [arrayOf_retired hv]
      simp [List.getD, List.getElem?_append_left hlt]
  | cons slot rest =>
    rw [append_room hsp]
    by_cases hv : v.base = s.base
    · have hle : v.lo + v.len ≤ (s.elems.map some).length := by simpa [len] using hhi hv
      rw [arrayOf_current hv, arrayOf_current (v := v) (by exact hv)]
      simp only [array, List.map_append, List.append_assoc]
      rw [List.take_append_of_le_length hle, List.take_append_of_le_length hle]
    · rw [arrayOf_retired hv, arrayOf_retired (v := v) (by exact hv)]

/-- What a window reads depends on the slots up to its end only. -/
theorem read_congr {s s' : GoSlice α} {v : GoWindow}
    (h : (s'.arrayOf v).take (v.lo + v.len) = (s.arrayOf v).take (v.lo + v.len)) :
    s'.read v = s.read v := by
  have key : ∀ l : List (Option α), (l.drop v.lo).take v.len = (l.take (v.lo + v.len)).drop v.lo := by
    intro l
    rw [List.drop_take]
    congr 1
    omega
  unfold read
  rw [key, key, h]

theorem read_append [GrowthPolicy] {s : GoSlice α} {v : GoWindow} (h : s.Inside v) (x : α) :
    (s.append x).read v = s.read v :=
  read_congr (arrayOf_append_take h x)

theorem Inside.append [GrowthPolicy] {s : GoSlice α} {v : GoWindow} (h : s.Inside v) (x : α) :
    (s.append x).Inside v := by
  refine ⟨h.base_le.trans (base_append_le s x), fun hv => ?_⟩
  have hlen : (s.append x).len = s.len + 1 := by simp [len]
  by_cases hb : v.base = s.base
  · have := h.hi_le hb
    omega
  · -- the append cannot have moved on to the window's (earlier) array
    have h1 := h.base_le
    have h2 := base_append_le s x
    omega

/-- Cutting a slice short does not touch its array. -/
theorem array_trunc (s : GoSlice α) (n : ℕ) : (s.trunc n).array = s.array := by
  unfold array trunc
  simp only
  rw [← List.append_assoc, ← List.map_append, List.take_append_drop]

theorem read_trunc (s : GoSlice α) (n : ℕ) (v : GoWindow) : (s.trunc n).read v = s.read v := by
  have h : (s.trunc n).arrayOf v = s.arrayOf v := by
    unfold arrayOf
    rw [array_trunc]
    rfl
  unfold read
  rw [h]

theorem Inside.trunc {s : GoSlice α} {v : GoWindow} (h : s.Inside v) {n : ℕ}
    (hn : v.base = s.base → v.lo + v.len ≤ n) : (s.trunc n).Inside v := by
  refine ⟨h.base_le, fun hv => ?_⟩
  have h1 := h.hi_le hv
  have h2 := hn hv
  have hlen : (s.trunc n).len = min n s.len := by simp [len]
  omega

/-! ## Windows behind the elements -/

/-- The slots of the window hold these elements. -/
structure Reads (s : GoSlice α) (v : GoWindow) (l : List α) : Prop where
  slots : ((s.arrayOf v).drop v.lo).take v.len = l.map some
  length_eq : l.length = v.len

/-- What is left of a window: it holds these elements, and it lies in the current array behind
the elements of the slice unless nothing is left of it. -/
structure Leftover (s : GoSlice α) (v : GoWindow) (l : List α) : Prop extends s.Reads v l where
  base_eq : l ≠ [] → v.base = s.base
  len_le : l ≠ [] → s.len ≤ v.lo

variable {s s' : GoSlice α} {v : GoWindow} {l : List α} {x : α}

theorem Reads.read_eq (h : s.Reads v l) : s.read v = l := by
  rw [read, h.slots, List.reduceOption]
  simp

theorem leftover_nil (h : v.len = 0) : s.Leftover v [] where
  slots := by rw [h, List.take_zero, List.map_nil]
  length_eq := h.symm
  base_eq := fun hne => absurd rfl hne
  len_le := fun hne => absurd rfl hne

/-- After `s[:0]` all that was there is left. -/
theorem leftover_trunc (s : GoSlice α) : (s.trunc 0).Leftover (s.view 0) s.elems where
  slots := by
    have hlen : s.len = (s.elems.map some).length := (List.length_map _).symm
    rw [arrayOf_current rfl, array_trunc]
    show (s.array.drop 0).take s.len = _
    rw [List.drop_zero, array, hlen, List.take_left]
  length_eq := rfl
  base_eq := fun _ => rfl
  len_le := fun _ => le_rfl

/-- The first element is taken. -/
theorem Leftover.tail (h : s.Leftover v (x :: l)) : s.Leftover v.tail l ∧ s.len < v.tail.lo := by
  have hle := h.len_le (List.cons_ne_nil x l)
  refine ⟨⟨⟨?_, ?_⟩, ?_, ?_⟩, Nat.lt_succ_of_le hle⟩
  · have hslots := congrArg (List.drop 1) h.slots
    rw [List.drop_take, List.drop_drop, List.map_cons, List.drop_one, List.tail_cons] at hslots
    exact hslots
  · rw [GoWindow.tail, ← h.length_eq, List.length_cons, Nat.add_sub_cancel]
  · exact fun _ => h.base_eq (List.cons_ne_nil x l)
  · exact fun _ => Nat.le_succ_of_le hle

/-- Where something is left, there is an array. -/
theorem Leftover.lo_lt (h : s.Leftover v (x :: l)) : v.lo < s.array.length := by
  by_contra hge
  have hnil := h.slots
  rw [arrayOf_current (h.base_eq (List.cons_ne_nil x l)),
    List.drop_eq_nil_of_le (not_lt.mp hge), List.take_nil] at hnil
  exact List.cons_ne_nil _ _ hnil.symm

/-- An append into the array writes the slot behind the elements. -/
theorem append_of_lt [GrowthPolicy] (h : s.len < s.array.length) (x : α) :
    (s.append x).base = s.base ∧ (s.append x).array = s.array.set s.len (some x) := by
  cases hsp : s.spare with
  | nil =>
    rw [array, hsp, List.append_nil, List.length_map] at h
    exact absurd h (lt_irrefl _)
  | cons slot rest =>
    rw [append_room hsp]
    refine ⟨rfl, ?_⟩
    have hlen : s.len = (s.elems.map some).length := (List.length_map _).symm
    rw [array, array, hsp, hlen, List.set_append_right _ _ le_rfl, Nat.sub_self,
      List.set_cons_zero, List.map_append, List.append_assoc]
    rfl

/-- **An append that is not seen**: the slot that it writes is before the window. -/
theorem Leftover.append [GrowthPolicy] (h : s.Leftover v l) (hlt : l ≠ [] → s.len < v.lo)
    (y : α) : (s.append y).Leftover v l := by
  cases l with
  | nil => exact leftover_nil h.length_eq.symm
  | cons x l =>
    have hlt := hlt (List.cons_ne_nil x l)
    have hb := h.base_eq (List.cons_ne_nil x l)
    obtain ⟨hbase, harray⟩ := append_of_lt (hlt.trans h.lo_lt) y
    refine ⟨⟨?_, h.length_eq⟩, fun _ => hb.trans hbase.symm, fun _ => ?_⟩
    · rw [arrayOf_current (hb.trans hbase.symm), harray, List.drop_set, if_pos hlt,
        ← arrayOf_current hb]
      exact h.slots
    · rw [len, elems_append, List.length_append]
      exact hlt

/-- **An append that is seen**: the slot that it writes is the first of the window. -/
theorem Leftover.append_at [GrowthPolicy] (h : s.Leftover v (x :: l)) (hat : s.len = v.lo)
    (y : α) : (s.append y).Reads v (y :: l) := by
  have hb := h.base_eq (List.cons_ne_nil x l)
  obtain ⟨hbase, harray⟩ := append_of_lt (hat.trans_lt h.lo_lt) y
  have hslots := h.slots
  rw [arrayOf_current hb] at hslots
  refine ⟨?_, h.length_eq⟩
  rw [arrayOf_current (hb.trans hbase.symm), harray, hat, List.drop_set, if_neg (lt_irrefl _),
    Nat.sub_self, List.take_set, hslots]
  rfl

end GoSlice
