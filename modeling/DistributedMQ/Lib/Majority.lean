import Mathlib.Data.List.Dedup
import Mathlib.Data.List.Nodup
import Mathlib.Data.List.Perm.Subperm
import Mathlib.Tactic.Linarith

/-!
# Majorities and one-vote-per-round elections

- `Majority members P`: the members with property `P` contain a strict
  majority. It is stated by exhibiting the majority as a duplicate-free list,
  which is the shape in which a tally delivers it.
- `Majority.inter`: two majorities of the same members meet.
- A `VoteBook V` records for every voter and round whom the voter chose; being a
  function it allows one choice per voter and round, so a round has at most one
  winner (`VoteBook.winner_unique`). Books only grow (`VoteBook.Extends`), so
  that a round that is won stays won (`VoteBook.Extends.won`).
-/

universe u

variable {V : Type u}

/-- The members satisfying `P` contain a strict majority of `members`. -/
def Majority (members : List V) (P : V → Prop) : Prop :=
  ∃ Q : List V, Q.Nodup ∧ Q ⊆ members ∧ members.length < 2 * Q.length ∧ ∀ v ∈ Q, P v

namespace Majority

variable {members : List V} {P P' : V → Prop}

theorem mono (h : ∀ v ∈ members, P v → P' v) (hP : Majority members P) :
    Majority members P' := by
  obtain ⟨Q, hnd, hsub, hlen, hQ⟩ := hP
  exact ⟨Q, hnd, hsub, hlen, fun v hv => h v (hsub hv) (hQ v hv)⟩

/-- **Majority intersection**: two majorities of one member list share a
member. Were they disjoint, their concatenation would be a duplicate-free
sublist of the members that is longer than the members. -/
theorem inter (hP : Majority members P) (hP' : Majority members P') :
    ∃ v ∈ members, P v ∧ P' v := by
  obtain ⟨Q, hnd, hsub, hlen, hQ⟩ := hP
  obtain ⟨Q', hnd', hsub', hlen', hQ'⟩ := hP'
  by_contra hno
  have hdisj : List.Disjoint Q Q' := fun v hv hv' =>
    hno ⟨v, hsub hv, hQ v hv, hQ' v hv'⟩
  have happ : (Q ++ Q').Nodup := List.Nodup.append hnd hnd' hdisj
  have hle : (Q ++ Q').length ≤ members.length :=
    (happ.subperm (List.append_subset.mpr ⟨hsub, hsub'⟩)).length_le
  rw [List.length_append] at hle
  omega

/-- The members with the property are counted without repetition. -/
theorem iff_lt_filter [DecidableEq V] [DecidablePred P] :
    Majority members P ↔ members.length < 2 * (members.dedup.filter P).length := by
  constructor
  · rintro ⟨Q, hnd, hsub, hlen, hQ⟩
    have hle : Q.length ≤ (members.dedup.filter P).length := by
      refine (hnd.subperm fun v hv => ?_).length_le
      simpa using ⟨hsub hv, hQ v hv⟩
    omega
  · intro hlen
    refine ⟨_, (List.nodup_dedup members).filter _, fun v hv => ?_, hlen, fun v hv => ?_⟩
    · exact List.mem_dedup.mp (List.mem_filter.mp hv).1
    · exact of_decide_eq_true (List.mem_filter.mp hv).2

instance [DecidableEq V] [DecidablePred P] : Decidable (Majority members P) :=
  decidable_of_iff _ iff_lt_filter.symm

end Majority

/-- Whom a voter chose in a round. -/
def VoteBook (V : Type u) : Type u := V → ℕ → Option V

namespace VoteBook

variable {members : List V}

/-- `c` has won the round: a majority has chosen it. -/
def Won (members : List V) (book : VoteBook V) (round : ℕ) (c : V) : Prop :=
  Majority members fun v => book v round = some c

/-- A round of a vote book has at most one winner. -/
theorem winner_unique {book : VoteBook V} {round : ℕ} {c c' : V}
    (h : book.Won members round c) (h' : book.Won members round c') : c = c' := by
  obtain ⟨v, -, hv, hv'⟩ := Majority.inter h h'
  exact Option.some.inj (hv.symm.trans hv')

/-- Every choice of `book` is one of `book'`. -/
def Extends (book book' : VoteBook V) : Prop :=
  ∀ v t c, book v t = some c → book' v t = some c

theorem Extends.refl (book : VoteBook V) : book.Extends book := fun _ _ _ h => h

theorem Extends.trans {book book' book'' : VoteBook V} (h : book.Extends book')
    (h' : book'.Extends book'') : book.Extends book'' :=
  fun v t c hc => h' v t c (h v t c hc)

theorem Extends.won {book book' : VoteBook V} (h : book.Extends book') {round : ℕ} {c : V}
    (hwon : book.Won members round c) : book'.Won members round c :=
  Majority.mono (fun v _ hv => h v round c hv) hwon

variable [DecidableEq V]

/-- Enter a choice. -/
def enter (book : VoteBook V) (v : V) (t : ℕ) (c : V) : VoteBook V :=
  fun v' t' => if v' = v ∧ t' = t then some c else book v' t'

theorem enter_self (book : VoteBook V) (v : V) (t : ℕ) (c : V) : book.enter v t c v t = some c :=
  if_pos ⟨rfl, rfl⟩

theorem enter_of_ne (book : VoteBook V) {v v' : V} (h : v' ≠ v) (t t' : ℕ) (c : V) :
    book.enter v t c v' t' = book v' t' :=
  if_neg fun hv => h hv.1

/-- An entry that contradicts no earlier one extends the book. -/
theorem extends_enter {book : VoteBook V} {v : V} {t : ℕ} {c : V}
    (h : ∀ c', book v t = some c' → c' = c) : book.Extends (book.enter v t c) := by
  intro v' t' c' hc'
  unfold enter
  by_cases heq : v' = v ∧ t' = t
  · obtain ⟨rfl, rfl⟩ := heq
    rw [if_pos ⟨rfl, rfl⟩, h c' hc']
  · rw [if_neg heq, hc']

/-- What is in the book after an entry. -/
theorem of_enter {book : VoteBook V} {v v' : V} {t t' : ℕ} {c c' : V}
    (h : book.enter v t c v' t' = some c') : (v' = v ∧ t' = t ∧ c' = c) ∨ book v' t' = some c' := by
  unfold enter at h
  split at h
  · rename_i heq
    exact Or.inl ⟨heq.1, heq.2, (Option.some.inj h).symm⟩
  · exact Or.inr h

end VoteBook
