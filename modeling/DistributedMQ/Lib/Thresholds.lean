import Mathlib.Data.Finset.Card
import Mathlib.Tactic.Linarith

/-!
# Two thresholds

A tally over two sets of voters that may overlap is passed when each of them has given enough
votes.

- `Meets A B a b G`: the voters `G` give `a` votes in `A` and `b` in `B`.
- `Meets.le_card`, `exists_meets`: the fewest votes in `A` with which this is possible.
- `meets_congr_iff`: two pairs of thresholds are passed by the same voters iff neither asks for
  more than the other one brings about.
-/

namespace Thresholds

universe u

variable {V : Type u} [DecidableEq V] {A B G N : Finset V} {a b a' b' : ℕ}

/-- `G` has `a` members of `A` and `b` members of `B`. -/
def Meets (A B : Finset V) (a b : ℕ) (G : Finset V) : Prop := a ≤ (G ∩ A).card ∧ b ≤ (G ∩ B).card

theorem Meets.symm (h : Meets A B a b G) : Meets B A b a G := ⟨h.2, h.1⟩

/-- `b` votes in `B` bring about votes in `A`, once the rest of `B` has voted. -/
theorem Meets.le_card (h : Meets A B a b G) : max a (b - (B \ A).card) ≤ (G ∩ A).card := by
  refine max_le h.1 ?_
  have hsplit : G ∩ B ⊆ (G ∩ A) ∪ (B \ A) := by
    intro v hv
    obtain ⟨hG, hB⟩ := Finset.mem_inter.mp hv
    by_cases hA : v ∈ A
    · exact Finset.mem_union_left _ (Finset.mem_inter.mpr ⟨hG, hA⟩)
    · exact Finset.mem_union_right _ (Finset.mem_sdiff.mpr ⟨hB, hA⟩)
  have hle := (Finset.card_le_card hsplit).trans (Finset.card_union_le _ _)
  have hb := h.2
  omega

/-- **As few as possible.** If the thresholds can be passed at all, it can be done with the rest
of `B` and no more votes in `A` than they need. -/
theorem exists_meets (ha : a ≤ A.card) (hb : b ≤ B.card) :
    ∃ G ⊆ A ∪ B, Meets A B a b G ∧ (G ∩ A).card = max a (b - (B \ A).card) := by
  have hB : (A ∩ B).card + (B \ A).card = B.card := by
    rw [Finset.inter_comm]
    exact Finset.card_inter_add_card_sdiff B A
  have hinter : (A ∩ B).card ≤ A.card := Finset.card_le_card Finset.inter_subset_left
  -- the votes in both sets, then those in `A` that are still missing
  obtain ⟨X, hXsub, hXcard⟩ : ∃ X ⊆ A ∩ B, X.card = b - (B \ A).card :=
    Finset.exists_subset_card_eq (by omega)
  have hXA : X ⊆ A := hXsub.trans Finset.inter_subset_left
  obtain ⟨Y, hXY, hYA, hYcard⟩ : ∃ Y, X ⊆ Y ∧ Y ⊆ A ∧ Y.card = max a (b - (B \ A).card) :=
    Finset.exists_subsuperset_card_eq hXA (hXcard ▸ le_max_right _ _) (by omega)
  have hGA : (Y ∪ B \ A) ∩ A = Y := by
    rw [Finset.union_inter_distrib_right, Finset.sdiff_inter_self, Finset.union_empty,
      Finset.inter_eq_left.mpr hYA]
  refine ⟨Y ∪ B \ A, ?_, ⟨?_, ?_⟩, by rw [hGA, hYcard]⟩
  · exact Finset.union_subset_union hYA Finset.sdiff_subset
  · rw [hGA, hYcard]
    exact le_max_left _ _
  · have hsub : X ∪ B \ A ⊆ (Y ∪ B \ A) ∩ B := by
      refine Finset.subset_inter (Finset.union_subset_union_left hXY) ?_
      exact Finset.union_subset (hXsub.trans Finset.inter_subset_right) Finset.sdiff_subset
    have hdisj : Disjoint X (B \ A) := Finset.disjoint_of_subset_left hXA Finset.disjoint_sdiff
    have hcard := Finset.card_le_card hsub
    rw [Finset.card_union_of_disjoint hdisj, hXcard] at hcard
    omega

/-- If `a` and `b` can be passed, whoever does so brings about `a'` and `b'`. -/
def BringsAbout (A B : Finset V) (a b a' b' : ℕ) : Prop :=
  a ≤ A.card → b ≤ B.card → a' ≤ max a (b - (B \ A).card) ∧ b' ≤ max b (a - (A \ B).card)

instance : Decidable (BringsAbout A B a b a' b') := inferInstanceAs (Decidable (_ → _))

theorem meets_imp_iff (hN : A ∪ B ⊆ N) :
    (∀ G ⊆ N, Meets A B a b G → Meets A B a' b' G) ↔ BringsAbout A B a b a' b' := by
  constructor
  · intro himp ha hb
    constructor
    · obtain ⟨G, hsub, hG, hcard⟩ := exists_meets ha hb
      exact hcard ▸ (himp G (hsub.trans hN) hG).1
    · obtain ⟨G, hsub, hG, hcard⟩ := exists_meets hb ha
      rw [Finset.union_comm] at hsub
      exact hcard ▸ (himp G (hsub.trans hN) hG.symm).2
  · intro hbrings G _ hG
    have ha : a ≤ A.card := hG.1.trans (Finset.card_le_card Finset.inter_subset_right)
    have hb : b ≤ B.card := hG.2.trans (Finset.card_le_card Finset.inter_subset_right)
    obtain ⟨ha', hb'⟩ := hbrings ha hb
    exact ⟨ha'.trans hG.le_card, hb'.trans hG.symm.le_card⟩

/-- **The same tallies**, over the subsets of a set that has all voters. -/
theorem meets_congr_iff (hN : A ∪ B ⊆ N) :
    (∀ G ⊆ N, Meets A B a b G ↔ Meets A B a' b' G) ↔
      BringsAbout A B a b a' b' ∧ BringsAbout A B a' b' a b := by
  rw [← meets_imp_iff hN, ← meets_imp_iff hN]
  constructor
  · intro h
    exact ⟨fun G hG => (h G hG).mp, fun G hG => (h G hG).mpr⟩
  · rintro ⟨hto, hfrom⟩ G hG
    exact ⟨hto G hG, hfrom G hG⟩

end Thresholds
