import Mathlib.Data.Nat.Notation
import Mathlib.Tactic.Common

/-!
# Binary search in machine words

The loop that looks for the first of `n` positions with a property, with both ends of the
interval inclusive and a result that starts as `n`. The positions are words with `m` values, so
that sums wrap around at `m`. The property is to hold from some position on.

- `search`: the loop, with a bound on the number of iterations.
- `search_spec`: it ends, and with the first position.
- `IsFirst.find?_range`: that position is what a search from the left finds.
- `iterations`: the intervals for which the body of the loop runs. They stay inside the first one
  (`bounds_of_mem_iterations`), and the loop looks at nothing but their middles (`search_congr`),
  one of which it returns (`mem_iterations_of_search`).
-/

namespace BinarySearch

/-- The loop; `none` if it has not come to its end after this many iterations. The step to the left
of position 0 is a step out of the loop. -/
def search (m : ℕ) (p : ℕ → Bool) : ℕ → ℕ → ℕ → ℕ → Option ℕ
  | 0, _, _, _ => none
  | fuel + 1, left, right, result =>
    if left ≤ right then
      let mid := (left + right) % m / 2
      if p mid then
        if mid = 0 then some mid else search m p fuel left (mid - 1) mid
      else search m p fuel ((mid + 1) % m) right result
    else some result

/-- The intervals for which the body of the loop runs, both ends included. -/
def iterations (m : ℕ) (p : ℕ → Bool) : ℕ → ℕ → ℕ → List (ℕ × ℕ)
  | 0, _, _ => []
  | fuel + 1, left, right =>
    if left ≤ right then
      let mid := (left + right) % m / 2
      (left, right) ::
        if p mid then
          if mid = 0 then [] else iterations m p fuel left (mid - 1)
        else iterations m p fuel ((mid + 1) % m) right
    else []

/-- Of `n` positions, `k` is the first one with the property; `n` if there is none. -/
structure IsFirst (p : ℕ → Bool) (n k : ℕ) : Prop where
  le : k ≤ n
  before : ∀ i < k, p i = false
  holds : k < n → p k = true

variable {m n k fuel left right result : ℕ} {p q : ℕ → Bool}

theorem IsFirst.find?_range (h : IsFirst p n k) :
    (List.range n).find? p = if k = n then none else some k := by
  split
  · rename_i hk
    refine List.find?_range_eq_none.mpr fun i hi => ?_
    rw [h.before i (hk ▸ hi), Bool.not_false]
  · rename_i hk
    have hlt := Nat.lt_of_le_of_ne h.le hk
    refine List.find?_range_eq_some.mpr ⟨h.holds hlt, List.mem_range.mpr hlt, fun i hi => ?_⟩
    rw [h.before i hi, Bool.not_false]

/-- **The loop.** The property does not hold to the left of the interval and holds to the right of
it, where the result is. -/
theorem search_spec (hm : 2 * n ≤ m)
    (hmono : ∀ i j, i ≤ j → j < n → p i = true → p j = true) (hright : right < n)
    (hle : left ≤ right + 1) (hbefore : ∀ i < left, p i = false)
    (hholds : right + 1 < n → p (right + 1) = true) (hfuel : right + 1 - left < fuel) :
    ∃ k, search m p fuel left right (right + 1) = some k ∧ IsFirst p n k := by
  induction fuel generalizing left right with
  | zero => exact absurd hfuel (Nat.not_lt_zero _)
  | succ fuel ih =>
    rw [search]
    by_cases hlr : left ≤ right
    · rw [if_pos hlr]
      obtain ⟨mid, hmid⟩ : ∃ mid, mid = (left + right) % m / 2 := ⟨_, rfl⟩
      rw [Nat.mod_eq_of_lt (by omega)] at hmid ⊢
      dsimp only
      rw [← hmid]
      cases hp : p mid with
      | true =>
        rw [if_pos rfl]
        by_cases hzero : mid = 0
        · rw [if_pos hzero]
          refine ⟨mid, rfl, by omega, fun i hi => absurd hi (by omega), fun _ => hp⟩
        · rw [if_neg hzero]
          have hpred : mid - 1 + 1 = mid := by omega
          have hih := @ih left (mid - 1) (by omega) (by omega) hbefore (fun _ => hpred ▸ hp)
            (by omega)
          rwa [hpred] at hih
      | false =>
        rw [if_neg Bool.false_ne_true, Nat.mod_eq_of_lt (by omega)]
        refine ih hright (by omega) (fun i hi => ?_) hholds (by omega)
        -- to the left of a position without the property there is none with it
        by_contra hne
        have hpi := hmono i mid (by omega) (by omega) (Bool.not_eq_false _ ▸ hne)
        exact absurd hpi (hp ▸ Bool.false_ne_true)
    · rw [if_neg hlr]
      refine ⟨right + 1, rfl, hright, fun i hi => hbefore i (by omega), hholds⟩

/-- No interval reaches out of the first one, as long as sums do not wrap around. -/
theorem bounds_of_mem_iterations (hm : 2 * n ≤ m) (hright : right < n) {ends : ℕ × ℕ}
    (hmem : ends ∈ iterations m p fuel left right) : ends.1 ≤ ends.2 ∧ ends.2 < n := by
  induction fuel generalizing left right with
  | zero => exact absurd hmem List.not_mem_nil
  | succ fuel ih =>
    rw [iterations] at hmem
    by_cases hlr : left ≤ right
    · rw [if_pos hlr] at hmem
      dsimp only at hmem
      have hsum : (left + right) % m = left + right := Nat.mod_eq_of_lt (by omega)
      rcases List.mem_cons.mp hmem with rfl | hrest
      · exact ⟨hlr, hright⟩
      · split_ifs at hrest with hp hzero
        · exact absurd hrest List.not_mem_nil
        · exact ih (by omega) hrest
        · exact ih hright hrest
    · rw [if_neg hlr] at hmem
      exact absurd hmem List.not_mem_nil

/-- Two properties that agree in the middles of the intervals give the same search. -/
theorem search_congr
    (h : ∀ ends ∈ iterations m p fuel left right,
      q ((ends.1 + ends.2) % m / 2) = p ((ends.1 + ends.2) % m / 2)) :
    search m q fuel left right result = search m p fuel left right result := by
  induction fuel generalizing left right result with
  | zero => rfl
  | succ fuel ih =>
    rw [search, search]
    rw [iterations] at h
    by_cases hlr : left ≤ right
    · rw [if_pos hlr] at h
      rw [if_pos hlr, if_pos hlr]
      dsimp only at h ⊢
      rw [h (left, right) List.mem_cons_self]
      have hrest := fun ends hends => h ends (List.mem_cons_of_mem _ hends)
      split_ifs at hrest ⊢ with hp hzero
      · rfl
      · exact ih hrest
      · exact ih hrest
    · rw [if_neg hlr, if_neg hlr]

/-- The loop returns what it started with or the middle of an interval. -/
theorem mem_iterations_of_search (h : search m p fuel left right result = some k) :
    k = result ∨ ∃ ends ∈ iterations m p fuel left right, k = (ends.1 + ends.2) % m / 2 := by
  induction fuel generalizing left right result with
  | zero => cases h
  | succ fuel ih =>
    rw [search] at h
    rw [iterations]
    by_cases hlr : left ≤ right
    · rw [if_pos hlr] at h ⊢
      dsimp only at h ⊢
      split_ifs at h ⊢ with hp hzero
      · exact Or.inr ⟨_, List.mem_cons_self, (Option.some.inj h).symm⟩
      · rcases ih h with rfl | ⟨ends, hends, rfl⟩
        · exact Or.inr ⟨_, List.mem_cons_self, rfl⟩
        · exact Or.inr ⟨ends, List.mem_cons_of_mem _ hends, rfl⟩
      · rcases ih h with rfl | ⟨ends, hends, rfl⟩
        · exact Or.inl rfl
        · exact Or.inr ⟨ends, List.mem_cons_of_mem _ hends, rfl⟩
    · rw [if_neg hlr] at h
      exact Or.inl (Option.some.inj h).symm

end BinarySearch
