import Mathlib.Logic.Function.Basic
import Mathlib.Tactic.Common

/-!
# Guarded runs of a step machine

A machine is a partial step function `step : σ → ℓ → Option σ` over labels.
A *guard* `σ → ℓ → σ → Prop` says which steps a run may take; it sees the state
before the step, the label and the state after it, so that "no label of this
kind", "the step finds its input in this shape" and "the step leaves that part
alone" are all guards.

- `Run step guard s t`: the machine gets from `s` to `t` by guarded steps.
- `Run.invariant`: what the start satisfies and every guarded step preserves,
  every state of a run satisfies.
- `Run.to_end`: where no state has two guarded steps, every run is on the way to
  the state that has none.
- `execWith`: the executable counterpart for decidable guards, with
  `run_of_execWith` to turn an evaluated trace into a `Run`.
- `Trail step guard s hist t`: a run that remembers the states it has visited,
  for properties about "some moment since", with `Trail.invariant` and
  `execTrail`.
-/

namespace Machine

universe u v

variable {σ : Type u} {ℓ : Type v}

/-- `Run step guard s t`: `t` is reached from `s` by guarded steps. -/
inductive Run (step : σ → ℓ → Option σ) (guard : σ → ℓ → σ → Prop) (s : σ) : σ → Prop where
  | refl : Run step guard s s
  | tail {t u : σ} {l : ℓ} :
      Run step guard s t → guard t l u → step t l = some u → Run step guard s u

variable {step : σ → ℓ → Option σ} {guard guard' : σ → ℓ → σ → Prop} {s t u : σ}

/-- **Invariant rule**: an initial property that every guarded step preserves
holds in every state of a run. -/
theorem Run.invariant {P : σ → Prop} (hs : P s)
    (hstep : ∀ t l u, P t → guard t l u → step t l = some u → P u)
    (hrun : Run step guard s u) : P u := by
  induction hrun with
  | refl => exact hs
  | tail _ hg hst ih => exact hstep _ _ _ ih hg hst

theorem Run.mono (hmono : ∀ t l u, guard t l u → guard' t l u)
    (hrun : Run step guard s u) : Run step guard' s u := by
  induction hrun with
  | refl => exact .refl
  | tail _ hg hst ih => exact ih.tail (hmono _ _ _ hg) hst

theorem Run.trans (h₁ : Run step guard s t) (h₂ : Run step guard t u) :
    Run step guard s u := by
  induction h₂ with
  | refl => exact h₁
  | tail _ hg hst ih => exact ih.tail hg hst

/-- A run is empty or has a first step. -/
theorem Run.cases_head (hrun : Run step guard s u) :
    s = u ∨ ∃ l t, guard s l t ∧ step s l = some t ∧ Run step guard t u := by
  induction hrun with
  | refl => exact Or.inl rfl
  | tail _ hg hst ih =>
    rcases ih with rfl | ⟨l, t, hg', hst', hrest⟩
    · exact Or.inr ⟨_, _, hg, hst, .refl⟩
    · exact Or.inr ⟨l, t, hg', hst', hrest.tail hg hst⟩

/-- **Runs that do not branch**: if a state has at most one guarded step and `u` has none, then
every run that starts where a run to `u` does can be continued to `u`. -/
theorem Run.to_end
    (hone : ∀ t l v l' v', guard t l v → step t l = some v →
      guard t l' v' → step t l' = some v' → v = v')
    (hend : ∀ l v, guard u l v → step u l ≠ some v)
    (hu : Run step guard s u) (hrun : Run step guard s t) : Run step guard t u := by
  induction hrun with
  | refl => exact hu
  | tail _ hg hst ih =>
    rcases ih.cases_head with rfl | ⟨l, v, hg', hst', hrest⟩
    · exact absurd hst (hend _ _ hg)
    · exact hone _ _ _ _ _ hg' hst' hg hst ▸ hrest

/-- Execute a list of labels, checking the guard of every step. -/
def execWith (step : σ → ℓ → Option σ) (guard : σ → ℓ → σ → Prop)
    [∀ t l u, Decidable (guard t l u)] : σ → List ℓ → Option σ
  | s, [] => some s
  | s, l :: ls =>
    match step s l with
    | none => none
    | some t => if guard s l t then execWith step guard t ls else none

/-- An executed trace is a run. -/
theorem run_of_execWith [∀ t l u, Decidable (guard t l u)] {ls : List ℓ} {s u : σ}
    (h : execWith step guard s ls = some u) : Run step guard s u := by
  induction ls generalizing s with
  | nil =>
    obtain rfl : s = u := by simpa [execWith] using h
    exact .refl
  | cons l ls ih =>
    unfold execWith at h
    cases hst : step s l with
    | none => simp [hst] at h
    | some t =>
      by_cases hg : guard s l t
      · have htail : execWith step guard t ls = some u := by simpa [hst, hg] using h
        exact (Run.refl.tail hg hst).trans (ih htail)
      · simp [hst, hg] at h

/-- A trace whose last state passes a check witnesses a run to such a state. -/
theorem exists_run_of_execWith [∀ t l u, Decidable (guard t l u)] (ls : List ℓ)
    {P : σ → Prop} [DecidablePred P] {s : σ}
    (h : (execWith step guard s ls).any (fun u => decide (P u)) = true) :
    ∃ u, Run step guard s u ∧ P u := by
  cases hx : execWith step guard s ls with
  | none => simp [hx] at h
  | some u => exact ⟨u, run_of_execWith hx, by simpa [hx] using h⟩

/-- The same for a trace with a distinguished step in it. -/
theorem exists_step_of_execWith [∀ t l u, Decidable (guard t l u)] (ls : List ℓ) (l : ℓ)
    (ls' : List ℓ) {P : σ → σ → σ → Prop} [∀ t u v, Decidable (P t u v)] {s : σ}
    (h : ((execWith step guard s ls).any fun t => (step t l).any fun u =>
      decide (guard t l u) && (execWith step guard u ls').any fun v => decide (P t u v)) = true) :
    ∃ t u v, Run step guard s t ∧ guard t l u ∧ step t l = some u ∧ Run step guard u v ∧
      P t u v := by
  obtain ⟨t, ht, h⟩ := (Option.any_eq_true _ _).mp h
  obtain ⟨u, hu, h⟩ := (Option.any_eq_true _ _).mp h
  obtain ⟨hg, h⟩ := Bool.and_eq_true_iff.mp h
  obtain ⟨v, hv, hP⟩ := (Option.any_eq_true _ _).mp h
  exact ⟨t, u, v, run_of_execWith ht, of_decide_eq_true hg, hu, run_of_execWith hv,
    of_decide_eq_true hP⟩

/-- The same for a trace whose last step is the distinguished one; the guard need not let it
pass. -/
theorem exists_last_step_of_execWith [∀ t l u, Decidable (guard t l u)] (ls : List ℓ) (l : ℓ)
    {P : σ → σ → Prop} [∀ t u, Decidable (P t u)] {s : σ}
    (h : ((execWith step guard s ls).any fun t => (step t l).any fun u => decide (P t u)) = true) :
    ∃ t u, Run step guard s t ∧ step t l = some u ∧ P t u := by
  obtain ⟨t, ht, h⟩ := (Option.any_eq_true _ _).mp h
  obtain ⟨u, hu, hP⟩ := (Option.any_eq_true _ _).mp h
  exact ⟨t, u, run_of_execWith ht, hu, of_decide_eq_true hP⟩

/-! ## Visited states -/

/-- `Trail step guard s hist t`: a run from `s` to `t` that has visited the
states `hist`, the last one first. -/
inductive Trail (step : σ → ℓ → Option σ) (guard : σ → ℓ → σ → Prop) (s : σ) :
    List σ → σ → Prop where
  | refl : Trail step guard s [s] s
  | tail {hist : List σ} {t u : σ} {l : ℓ} :
      Trail step guard s hist t → guard t l u → step t l = some u →
        Trail step guard s (u :: hist) u

/-- The invariant rule for properties of the past and the present state. -/
theorem Trail.invariant {P : List σ → σ → Prop} (hs : P [s] s)
    (hstep : ∀ hist t l u, P hist t → guard t l u → step t l = some u → P (u :: hist) u)
    {hist : List σ} (htrail : Trail step guard s hist u) : P hist u := by
  induction htrail with
  | refl => exact hs
  | tail _ hg hst ih => exact hstep _ _ _ _ ih hg hst

/-- Every run has visited some states. -/
theorem Run.exists_trail (hrun : Run step guard s u) : ∃ hist, Trail step guard s hist u := by
  induction hrun with
  | refl => exact ⟨_, .refl⟩
  | tail _ hg hst ih =>
    obtain ⟨hist, htrail⟩ := ih
    exact ⟨_, htrail.tail hg hst⟩

/-- Execute a list of labels behind a trail, checking the guard of every step. -/
def execTrail (step : σ → ℓ → Option σ) (guard : σ → ℓ → σ → Prop)
    [∀ t l u, Decidable (guard t l u)] : List σ → σ → List ℓ → Option (List σ × σ)
  | hist, s, [] => some (hist, s)
  | hist, s, l :: ls =>
    match step s l with
    | none => none
    | some t => if guard s l t then execTrail step guard (t :: hist) t ls else none

/-- An executed trace prolongs the trail. -/
theorem trail_of_execTrail [∀ t l u, Decidable (guard t l u)] {ls : List ℓ}
    {hist hist' : List σ} {t v : σ} (htrail : Trail step guard s hist t)
    (h : execTrail step guard hist t ls = some (hist', v)) : Trail step guard s hist' v := by
  induction ls generalizing hist t with
  | nil =>
    obtain ⟨rfl, rfl⟩ : hist = hist' ∧ t = v := by simpa [execTrail] using h
    exact htrail
  | cons l ls ih =>
    unfold execTrail at h
    cases hst : step t l with
    | none => simp [hst] at h
    | some u =>
      by_cases hg : guard t l u
      · exact ih (htrail.tail hg hst) (by simpa [hst, hg] using h)
      · simp [hst, hg] at h

/-- A trace that passes a check on all its states witnesses a trail. -/
theorem exists_trail_of_execTrail [∀ t l u, Decidable (guard t l u)] (ls : List ℓ)
    {P : List σ → σ → Prop} [∀ hist t, Decidable (P hist t)] {s : σ}
    (h : (execTrail step guard [s] s ls).any (fun x => decide (P x.1 x.2)) = true) :
    ∃ hist t, Trail step guard s hist t ∧ P hist t := by
  obtain ⟨⟨hist, t⟩, hx, hP⟩ := (Option.any_eq_true _ _).mp h
  exact ⟨hist, t, trail_of_execTrail .refl hx, of_decide_eq_true hP⟩

end Machine
