import Mathlib.Data.List.Count
import Mathlib.Data.List.Range
import Mathlib.Data.List.Perm.Basic

/-!
# Nothing is lost and nothing is there twice

Things that are numbered in the order in which they come in, and a list of all the places where
they may be, with what is there now. They are conserved if each of them is in the list once.

- `Conserved n l`: of `n` things each one is in `l` once, and there is nothing else.
- `Conserved.perm`, `Conserved.move`, `Conserved.add`: moving things around, and one thing more.
- `flatMap_perm`: places that are numbered, of which one changes.
-/

namespace Conservation

/-- Of `n` things each one is in the list once. -/
def Conserved (n : ℕ) (l : List ℕ) : Prop := l.Perm (List.range n)

instance (n : ℕ) (l : List ℕ) : Decidable (Conserved n l) :=
  inferInstanceAs (Decidable (l.Perm (List.range n)))

variable {n : ℕ} {l l' : List ℕ}

theorem conserved_nil : Conserved 0 [] := List.Perm.refl []

/-- Things change their places. -/
theorem Conserved.perm (h : Conserved n l) (hmoved : l'.Perm l) : Conserved n l' := hmoved.trans h

/-- Some of what is in the first place goes to the end of the second. -/
theorem Conserved.move {first second kept moved : List ℕ} (h : Conserved n (first ++ second))
    (hmoved : (kept ++ moved).Perm first) : Conserved n (kept ++ (second ++ moved)) := by
  refine h.perm ?_
  calc (kept ++ (second ++ moved)).Perm (kept ++ (moved ++ second)) :=
        List.perm_append_comm.append_left _
    _ = kept ++ moved ++ second := (List.append_assoc _ _ _).symm
    _ |>.Perm (first ++ second) := hmoved.append_right _

/-- One thing more comes in. -/
theorem Conserved.add (h : Conserved n l) (hnew : l'.Perm (n :: l)) : Conserved (n + 1) l' := by
  have hlast : (n :: List.range n).Perm (List.range (n + 1)) := by
    rw [List.range_succ]
    exact (List.perm_append_singleton n (List.range n)).symm
  exact hnew.trans ((h.cons n).trans hlast)

theorem Conserved.nodup (h : Conserved n l) : l.Nodup := h.nodup_iff.mpr List.nodup_range

theorem Conserved.mem_iff (h : Conserved n l) {k : ℕ} : k ∈ l ↔ k < n :=
  (List.Perm.mem_iff h).trans List.mem_range

/-- Each of the `n` things is there exactly once, and nothing else is. -/
theorem Conserved.count_eq (h : Conserved n l) (k : ℕ) : l.count k = if k < n then 1 else 0 := by
  rw [h.nodup.count, if_congr h.mem_iff rfl rfl]

/-- Of the places `ls` only one changes, by these things. -/
theorem flatMap_perm {ls : List ℕ} {f g : ℕ → List ℕ} {k : ℕ} {more : List ℕ} (hnodup : ls.Nodup)
    (hk : k ∈ ls) (hsame : ∀ j, j ≠ k → f j = g j) (hmore : (f k).Perm (more ++ g k)) :
    (ls.flatMap f).Perm (more ++ ls.flatMap g) := by
  induction ls with
  | nil => cases hk
  | cons j ls ih =>
    obtain ⟨hnot, hnodup⟩ := List.nodup_cons.mp hnodup
    rw [List.flatMap_cons, List.flatMap_cons]
    by_cases hjk : j = k
    · subst hjk
      have hrest : ls.flatMap f = ls.flatMap g :=
        List.flatMap_congr fun i hi => hsame i fun h => hnot (h ▸ hi)
      rw [hrest, ← List.append_assoc]
      exact hmore.append_right _
    · have hin : k ∈ ls := (List.mem_cons.mp hk).resolve_left fun h => hjk h.symm
      rw [hsame j hjk]
      calc (g j ++ ls.flatMap f).Perm (g j ++ (more ++ ls.flatMap g)) :=
            (ih hnodup hin).append_left _
        _ = g j ++ more ++ ls.flatMap g := (List.append_assoc _ _ _).symm
        _ |>.Perm (more ++ g j ++ ls.flatMap g) := List.perm_append_comm.append_right _
        _ = more ++ (g j ++ ls.flatMap g) := List.append_assoc _ _ _

end Conservation
