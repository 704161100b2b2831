import Mathlib.Data.List.Induction

/-!
# Histories

A history is the list of what has happened so far, the last event at its end. Some
events end the effect of an earlier one: `stop x y` says that `y` ends that of `x`.

- `Since stop hist x`: `x` has happened, and nothing since has ended its effect.
- `Unless stop R hist`: of two events of the history, the earlier one is related to the
  later one by `R`, unless something in between has ended its effect.

- `latest p hist`: the last event of a kind.

All are maintained event by event (`since_concat`, `unless_concat`, `latest_concat`): for a
new event only those count that are still in effect.
-/

namespace History

variable {α : Type*} {stop R : α → α → Prop} {hist more : List α} {x y : α}

def Since (stop : α → α → Prop) (hist : List α) (x : α) : Prop :=
  ∃ before after, hist = before ++ x :: after ∧ ∀ y ∈ after, ¬stop x y

def Unless (stop R : α → α → Prop) (hist : List α) : Prop :=
  ∀ before x between y after, hist = before ++ x :: (between ++ y :: after) →
    (∀ z ∈ between, ¬stop x z) → R x y

theorem not_since_nil : ¬Since stop [] x := by
  rintro ⟨before, after, heq, _⟩
  exact absurd heq.symm (by simp)

/-- The last event of a history. -/
theorem append_cons_eq_concat {before after : List α}
    (h : hist ++ [y] = before ++ x :: after) :
    before = hist ∧ x = y ∧ after = [] ∨
      ∃ rest, after = rest ++ [y] ∧ hist = before ++ x :: rest := by
  rcases List.eq_nil_or_concat after with rfl | ⟨rest, z, hafter⟩
  · obtain ⟨rfl, heq⟩ := List.append_inj' h rfl
    exact Or.inl ⟨rfl, (List.cons.inj heq).1.symm, rfl⟩
  · rw [List.concat_eq_append] at hafter
    subst hafter
    have hassoc : hist ++ [y] = (before ++ x :: rest) ++ [z] := by
      rw [h, List.append_assoc]
      rfl
    obtain ⟨rfl, heq⟩ := List.append_inj' hassoc rfl
    obtain rfl := (List.cons.inj heq).1
    exact Or.inr ⟨rest, rfl, rfl⟩

/-- **One more event** is in effect itself and may end the effect of others. -/
theorem since_concat : Since stop (hist ++ [y]) x ↔ x = y ∨ Since stop hist x ∧ ¬stop x y := by
  constructor
  · rintro ⟨before, after, heq, hafter⟩
    rcases append_cons_eq_concat heq with ⟨_, rfl, _⟩ | ⟨rest, rfl, rfl⟩
    · exact Or.inl rfl
    · refine Or.inr ⟨⟨before, rest, rfl, fun z hz => ?_⟩, ?_⟩
      · exact hafter z (List.mem_append_left _ hz)
      · exact hafter y (List.mem_append_right _ (List.mem_singleton_self y))
  · rintro (rfl | ⟨⟨before, after, rfl, hafter⟩, hy⟩)
    · exact ⟨hist, [], rfl, fun z hz => absurd hz List.not_mem_nil⟩
    · refine ⟨before, after ++ [y], by rw [List.append_assoc]; rfl, fun z hz => ?_⟩
      rcases List.mem_append.mp hz with hz | hz
      · exact hafter z hz
      · rwa [List.mem_singleton.mp hz]

/-- Events that are none of those in question. -/
theorem since_append_iff (hne : ∀ y ∈ more, x ≠ y) :
    Since stop (hist ++ more) x ↔ Since stop hist x ∧ ∀ y ∈ more, ¬stop x y := by
  induction more using List.reverseRecOn with
  | nil =>
    rw [List.append_nil]
    exact ⟨fun h => ⟨h, fun y hy => absurd hy List.not_mem_nil⟩, And.left⟩
  | append_singleton more y ih =>
    have hmem : y ∈ more ++ [y] := List.mem_append_right _ (List.mem_singleton_self y)
    rw [← List.append_assoc, since_concat, ih fun z hz => hne z (List.mem_append_left _ hz),
      or_iff_right (hne y hmem), List.forall_mem_append, List.forall_mem_singleton, and_assoc]

theorem unless_nil : Unless stop R [] := by
  intro before x between y after heq _
  exact absurd heq.symm (by simp)

theorem unless_concat :
    Unless stop R (hist ++ [y]) ↔ Unless stop R hist ∧ ∀ x, Since stop hist x → R x y := by
  constructor
  · intro h
    constructor
    · rintro before x between z after rfl hbetween
      refine h before x between z (after ++ [y]) ?_ hbetween
      simp only [List.append_assoc, List.cons_append]
    · rintro x ⟨before, between, rfl, hbetween⟩
      refine h before x between y [] ?_ hbetween
      rw [List.append_assoc, List.cons_append]
  · rintro ⟨hold, hnew⟩ before x between z after heq hbetween
    rcases append_cons_eq_concat heq with ⟨_, _, hnil⟩ | ⟨rest, hrest, rfl⟩
    · exact absurd hnil (by simp)
    · rcases append_cons_eq_concat hrest.symm with ⟨rfl, rfl, _⟩ | ⟨rest', _, rfl⟩
      · exact hnew x ⟨before, between, rfl, hbetween⟩
      · exact hold before x between z rest' rfl hbetween

/-- Events that everything is related to. -/
theorem Unless.append (h : Unless stop R hist) (hmore : ∀ y ∈ more, ∀ x, R x y) :
    Unless stop R (hist ++ more) := by
  induction more using List.reverseRecOn with
  | nil => rwa [List.append_nil]
  | append_singleton more y ih =>
    rw [← List.append_assoc]
    refine unless_concat.mpr ⟨ih fun z hz => hmore z (List.mem_append_left _ hz), fun x _ => ?_⟩
    exact hmore y (List.mem_append_right _ (List.mem_singleton_self y)) x

/-! ## The last event of a kind -/

def latest (p : α → Bool) (hist : List α) : Option α := (hist.filter p).getLast?

theorem latest_concat (p : α → Bool) (hist : List α) (x : α) :
    latest p (hist ++ [x]) = if p x then some x else latest p hist := by
  rw [latest, List.filter_append]
  split
  · rename_i hx
    rw [List.filter_cons_of_pos hx, List.filter_nil, List.getLast?_concat]
  · rename_i hx
    rw [List.filter_cons_of_neg hx, List.filter_nil, List.append_nil]
    rfl

theorem latest_congr {p q : α → Bool} (h : ∀ x ∈ hist, p x = q x) :
    latest p hist = latest q hist :=
  congrArg List.getLast? (List.filter_congr h)

theorem mem_of_latest {p : α → Bool} (h : latest p hist = some x) : x ∈ hist ∧ p x = true :=
  List.mem_filter.mp (List.mem_of_getLast? h)

end History
