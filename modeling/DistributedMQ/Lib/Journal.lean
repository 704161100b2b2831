import Mathlib.Data.List.Basic
import Mathlib.Tactic.Common

/-!
# A list kept in an append-only file

A `Journal` is a list in memory together with the file it is saved to. `mark`
says how much of the list counts as written. `save` appends the rest to the
file; what it records of the mark, in a file of its own, is the mark *before*
it appends. `load` takes the list from the file and the mark from the record.

- `Synced`: the file holds the first `mark` elements of the list. Saving and
  changes behind the mark keep it (`Synced.save`, `Synced.change`).
- `Synced.load`: loading keeps it, and the list, if the mark recorded is the
  whole list.
-/

universe u

structure Journal (α : Type u) where
  list : List α
  file : List α
  /-- How many elements of the list count as written. -/
  mark : ℕ
  /-- The mark on disk. -/
  record : ℕ

namespace Journal

variable {α : Type u} {j : Journal α}

def save (j : Journal α) : Journal α where
  list := j.list
  file := j.file ++ j.list.drop j.mark
  mark := j.list.length
  record := j.mark

def load (j : Journal α) : Journal α where
  list := j.file
  file := j.file
  mark := j.record
  record := j.record

/-- The file holds the elements that count as written. -/
structure Synced (j : Journal α) : Prop where
  mark_le : j.mark ≤ j.list.length
  file_eq : j.file = j.list.take j.mark

theorem synced_empty (α : Type u) : Synced (⟨[], [], 0, 0⟩ : Journal α) := ⟨Nat.le_refl _, rfl⟩

/-- A change of the list behind the mark. -/
theorem Synced.change (h : j.Synced) {l : List α} (hle : j.mark ≤ l.length)
    (htake : l.take j.mark = j.list.take j.mark) : Synced { j with list := l } where
  mark_le := hle
  file_eq := h.file_eq.trans htake.symm

/-- A save brings the file up to date. -/
theorem Synced.save_file (h : j.Synced) : j.save.file = j.list := by
  show j.file ++ j.list.drop j.mark = j.list
  rw [h.file_eq, List.take_append_drop]

theorem Synced.save (h : j.Synced) : j.save.Synced where
  mark_le := Nat.le_refl _
  file_eq := by
    rw [h.save_file]
    exact List.take_length.symm

/-- A synced journal whose list has been written is loaded as it was. -/
theorem Synced.load_list (h : j.Synced) (hmark : j.mark = j.list.length) :
    j.load.list = j.list := by
  show j.file = j.list
  rw [h.file_eq, hmark, List.take_length]

theorem Synced.load (h : j.Synced) (hmark : j.mark = j.list.length)
    (hrecord : j.record = j.list.length) : j.load.Synced := by
  have hlist : j.file = j.list := h.load_list hmark
  constructor
  · show j.record ≤ j.file.length
    exact Nat.le_of_eq (hrecord.trans (congrArg List.length hlist).symm)
  · show j.file = j.file.take j.record
    rw [hlist, hrecord, List.take_length]

end Journal
