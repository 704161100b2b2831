import Mathlib.Data.List.Nodup
import Mathlib.Data.List.Pairwise
import Mathlib.Order.Monotone.Basic
import Mathlib.Tactic.Common

/-!
# Dealing a list out in blocks

A list is cut into `parts` consecutive blocks whose lengths differ by at most one: with
`q` and `r` the quotient and remainder of the length, the first `r` blocks have length
`q + 1` and the others `q`.

- `flatMap_block`: the blocks, one after the other, are the list.
- `existsUnique_block`: an element of a list without repetitions is in one block.
- `length_block_le`: the lengths differ by at most one.
-/

namespace Blocks

variable {α : Type*}

/-- The length of block `i`. -/
def size (total parts i : ℕ) : ℕ :=
  if i < total % parts then total / parts + 1 else total / parts

/-- Where block `i` starts. -/
def start (total parts i : ℕ) : ℕ := i * (total / parts) + min i (total % parts)

theorem start_zero (total parts : ℕ) : start total parts 0 = 0 := by
  rw [start, Nat.zero_mul, Nat.zero_min]

theorem start_succ (total parts i : ℕ) :
    start total parts (i + 1) = start total parts i + size total parts i := by
  unfold start size
  rw [Nat.succ_mul]
  split
  · omega
  · omega

theorem start_parts {total parts : ℕ} (h : 0 < parts) : start total parts parts = total := by
  have hrem := Nat.mod_lt total h
  rw [start, Nat.min_eq_right hrem.le]
  exact Nat.div_add_mod total parts

theorem start_le {total parts i : ℕ} (h : i ≤ parts) (hpos : 0 < parts) :
    start total parts i ≤ total := by
  have hmono : Monotone (start total parts) :=
    monotone_nat_of_le_succ fun i => (start_succ total parts i).symm ▸ Nat.le_add_right _ _
  exact (hmono h).trans_eq (start_parts hpos)

theorem size_le (total parts i j : ℕ) : size total parts i ≤ size total parts j + 1 := by
  unfold size
  split
  · split
    · omega
    · omega
  · split
    · omega
    · omega

/-- Block `i` of a list. -/
def block (l : List α) (parts i : ℕ) : List α :=
  (l.drop (start l.length parts i)).take (size l.length parts i)

theorem length_block (l : List α) {parts i : ℕ} (h : i < parts) :
    (block l parts i).length = size l.length parts i := by
  have hend : start l.length parts (i + 1) ≤ l.length :=
    start_le (Nat.succ_le_of_lt h) (Nat.zero_lt_of_lt h)
  rw [start_succ] at hend
  rw [block, List.length_take, List.length_drop]
  omega

theorem length_block_le (l : List α) {parts i j : ℕ} (hi : i < parts) (hj : j < parts) :
    (block l parts i).length ≤ (block l parts j).length + 1 := by
  rw [length_block l hi, length_block l hj]
  exact size_le ..

/-- The first blocks are a prefix of the list. -/
theorem flatMap_block_range (l : List α) (parts i : ℕ) :
    (List.range i).flatMap (block l parts) = l.take (start l.length parts i) := by
  induction i with
  | zero => rw [start_zero, List.take_zero, List.range_zero, List.flatMap_nil]
  | succ i ih =>
    rw [List.range_succ, List.flatMap_append, ih, List.flatMap_singleton, start_succ, block,
      List.take_add]

theorem flatMap_block (l : List α) {parts : ℕ} (h : 0 < parts) :
    (List.range parts).flatMap (block l parts) = l := by
  rw [flatMap_block_range, start_parts h, List.take_length]

theorem mem_of_mem_block {l : List α} {parts i : ℕ} {x : α} (h : x ∈ block l parts i) : x ∈ l :=
  List.mem_of_mem_drop (List.mem_of_mem_take h)

theorem nodup_block {l : List α} (h : l.Nodup) (parts i : ℕ) : (block l parts i).Nodup :=
  h.sublist ((List.take_sublist _ _).trans (List.drop_sublist _ _))

theorem existsUnique_block {l : List α} (hnodup : l.Nodup) {parts : ℕ} (h : 0 < parts) {x : α}
    (hx : x ∈ l) : ∃! i, i < parts ∧ x ∈ block l parts i := by
  have hall := flatMap_block l h
  have hdisjoint := (List.nodup_flatMap.mp (hall.symm ▸ hnodup)).2
  obtain ⟨i, hi, hxi⟩ := List.mem_flatMap.mp (hall.symm ▸ hx)
  refine ⟨i, ⟨List.mem_range.mp hi, hxi⟩, fun j ⟨hj, hxj⟩ => ?_⟩
  by_contra hne
  have : Std.Symm (Function.onFun List.Disjoint (block l parts)) :=
    ⟨fun _ _ hd _ hx hx' => hd hx' hx⟩
  exact hdisjoint.forall (List.mem_range.mpr hj) hi hne hxj hxi

end Blocks
