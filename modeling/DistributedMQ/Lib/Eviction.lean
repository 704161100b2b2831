import Mathlib.Order.Nat

/-!
# The oldest record

A loop over the records of a full table that looks for the oldest one. It keeps the best
key so far with its time; the time zero stands for "none yet".

- `oldest_spec`: over records with other times the loop ends with one of the oldest.
-/

namespace Eviction

variable {K A : Type*}

/-- The body of the loop. -/
def older (time : A → ℕ) (best : K × ℕ) (x : K × A) : K × ℕ :=
  if best.2 = 0 ∨ time x.2 < best.2 then (x.1, time x.2) else best

/-- The key the loop ends with, `none` if there are no records. -/
def oldest (time : A → ℕ) (none : K) (order : List (K × A)) : K :=
  (order.foldl (older time) (none, 0)).1

variable {time : A → ℕ} {order : List (K × A)}

/-- **Loop**: the best one so far is replaced by older ones only. -/
theorem foldl_older (hpos : ∀ x ∈ order, time x.2 ≠ 0) (best : K × ℕ) (hbest : best.2 ≠ 0) :
    (order.foldl (older time) best).2 ≤ best.2 ∧
      (∀ x ∈ order, (order.foldl (older time) best).2 ≤ time x.2) ∧
      (order.foldl (older time) best = best ∨
        ∃ x ∈ order, order.foldl (older time) best = (x.1, time x.2)) := by
  induction order generalizing best with
  | nil => exact ⟨le_rfl, fun x hx => absurd hx List.not_mem_nil, Or.inl rfl⟩
  | cons x order ih =>
    obtain ⟨hx, hrest⟩ := List.forall_mem_cons.mp hpos
    rw [List.foldl_cons, older]
    split
    · rename_i holder
      have hlt : time x.2 < best.2 := holder.resolve_left hbest
      obtain ⟨hle, hall, hfrom⟩ := ih hrest (x.1, time x.2) hx
      refine ⟨hle.trans hlt.le, List.forall_mem_cons.mpr ⟨hle, hall⟩, Or.inr ?_⟩
      rcases hfrom with heq | ⟨y, hy, heq⟩
      · exact ⟨x, List.mem_cons_self, heq⟩
      · exact ⟨y, List.mem_cons_of_mem x hy, heq⟩
    · rename_i hyoung
      have hle' : best.2 ≤ time x.2 := Nat.le_of_not_lt fun hlt => hyoung (Or.inr hlt)
      obtain ⟨hle, hall, hfrom⟩ := ih hrest best hbest
      refine ⟨hle, List.forall_mem_cons.mpr ⟨hle.trans hle', hall⟩, ?_⟩
      rcases hfrom with heq | ⟨y, hy, heq⟩
      · exact Or.inl heq
      · exact Or.inr ⟨y, List.mem_cons_of_mem x hy, heq⟩

/-- If no time is 0 the loop finds an oldest record. -/
theorem oldest_spec (hpos : ∀ x ∈ order, time x.2 ≠ 0) (hne : order ≠ []) (none : K) :
    ∃ x ∈ order, oldest time none order = x.1 ∧ ∀ y ∈ order, time x.2 ≤ time y.2 := by
  cases order with
  | nil => exact absurd rfl hne
  | cons x order =>
    obtain ⟨hx, hrest⟩ := List.forall_mem_cons.mp hpos
    -- the first record is taken whatever its time
    have hfirst : oldest time none (x :: order) =
        (order.foldl (older time) (x.1, time x.2)).1 := by
      rw [oldest, List.foldl_cons, older, if_pos (Or.inl rfl)]
    obtain ⟨hle, hall, hfrom⟩ := foldl_older hrest (x.1, time x.2) hx
    rw [hfirst]
    rcases hfrom with heq | ⟨y, hy, heq⟩
    · rw [heq] at hall ⊢
      exact ⟨x, List.mem_cons_self, rfl, List.forall_mem_cons.mpr ⟨le_rfl, hall⟩⟩
    · rw [heq] at hle hall ⊢
      exact ⟨y, List.mem_cons_of_mem x hy, rfl, List.forall_mem_cons.mpr ⟨hle, hall⟩⟩

end Eviction
