import DistributedMQ.Lib.Replication

/-!
# The committed log, abstractly

What leader completeness gives to those who apply the log.

- `View.CommittedIn T P`: a majority has accepted, in term `T`, an entry of `T`'s leader, and the
  leader's log up to it starts with `P`.
- `View.Committed K t P`: everybody has started with `P` (`K` is what the logs have in common at the
  start), or `P` is committed in some term up to `t`.
- `View.Ok.prefix_leader`: what is committed is a prefix of the log of every later leader.
- `View.Ok.committed_total`: of two committed logs one is a prefix of the other, so that there is
  only one committed log at any time.
-/

universe u v

open TermLog

variable {α : Type u} {V : Type v}

namespace View

/-- A majority has accepted an entry of term `T` at the end of `P` or behind it. -/
def CommittedIn (term : α → ℕ) (members : List V) (s : View α V) (T : ℕ) (P : List α) : Prop :=
  ∃ c L i e, s.archive.led T = some (c, L) ∧ 0 < i ∧ term e = T ∧ L[i]? = some e ∧
    (Majority members fun p => i ≤ s.acc p T) ∧ P <+: L.take (i + 1)

/-- `P` is in the common start `K`, or committed in a term up to `t`. -/
def Committed (term : α → ℕ) (members : List V) (K : List α) (s : View α V) (t : ℕ) (P : List α) :
    Prop :=
  P <+: K ∨ ∃ T ≤ t, s.CommittedIn term members T P

variable {term : α → ℕ} {root : α} {base : ℕ} {members : List V} {s s' : View α V} {K P P' : List α}
  {T t t' : ℕ}

/-- What is committed stays so: leaders only append, and members only accept more. -/
theorem CommittedIn.mono (hled : s.archive.Le s'.archive) (hacc : ∀ p T, s.acc p T ≤ s'.acc p T)
    (h : s.CommittedIn term members T P) : s'.CommittedIn term members T P := by
  obtain ⟨c, L, i, e, hL, hpos, hterm, hget, hmaj, hpre⟩ := h
  obtain ⟨L', hL', hext⟩ := hled.led T c L hL
  refine ⟨c, L', i, e, hL', hpos, hterm, getElem?_of_prefix hext hget,
    Majority.mono (fun p _ hp => hp.trans (hacc p T)) hmaj, ?_⟩
  obtain ⟨R, rfl⟩ := hext
  have hlen := (List.getElem?_eq_some_iff.mp hget).1
  rwa [List.take_append_of_le_length hlen]

theorem CommittedIn.led (h : s.CommittedIn term members T P) :
    ∃ c L, s.archive.led T = some (c, L) := by
  obtain ⟨c, L, _, _, hL, -⟩ := h
  exact ⟨c, L, hL⟩

theorem Committed.mono (hled : s.archive.Le s'.archive) (hacc : ∀ p T, s.acc p T ≤ s'.acc p T)
    (ht : t ≤ t') (h : s.Committed term members K t P) : s'.Committed term members K t' P := by
  rcases h with hK | ⟨T, hT, hin⟩
  · exact Or.inl hK
  · exact Or.inr ⟨T, hT.trans ht, hin.mono hled hacc⟩

namespace Ok

/-- **What is committed, every later leader has.** -/
theorem prefix_leader (h : s.Ok term root base members) (hP : s.CommittedIn term members T P)
    {T' : ℕ} {c' : V} {L' : List α} (hT : T ≤ T') (hled : s.archive.led T' = some (c', L')) :
    P <+: L' := by
  obtain ⟨c, L, i, e, hL, hpos, hterm, hget, hmaj, hpre⟩ := hP
  rcases hT.lt_or_eq with hlt | rfl
  · -- the later leader has the entry, and so everything before it
    have hget' : L'[i]? = some e := h.later_leader ⟨hpos, hterm, c, L, hL, hget⟩ hlt hled hmaj
    have htake : L.take (i + 1) = L'.take (i + 1) :=
      h.archive.matching L L' (h.archive.led_known _ _ _ hL) (h.archive.led_known _ _ _ hled)
        i e e hget hget' rfl
    rw [htake] at hpre
    exact hpre.trans (List.take_prefix _ _)
  · rw [hL] at hled
    obtain ⟨-, rfl⟩ := Prod.mk.inj (Option.some.inj hled)
    exact hpre.trans (List.take_prefix _ _)

/-- Somebody has what is committed. -/
theorem prefix_member (h : s.Ok term root base members) (hP : s.CommittedIn term members T P) :
    ∃ p ∈ members, P <+: s.log p := by
  obtain ⟨c, L, i, e, hL, hpos, hterm, hget, hmaj, hpre⟩ := hP
  obtain ⟨p, hp, hacc, -⟩ := Majority.inter hmaj hmaj
  have hheld : (s.log p)[i]? = some e :=
    h.holds p hp T i e ⟨hpos, hterm, c, L, hL, hget⟩ hacc (choosable_of_accepted hmaj)
  have htake : (s.log p).take (i + 1) = L.take (i + 1) :=
    h.archive.matching _ L (h.known p hp) (h.archive.led_known _ _ _ hL) i e e hheld hget rfl
  rw [← htake] at hpre
  exact ⟨p, hp, hpre.trans (List.take_prefix _ _)⟩

/-- **There is one committed log**: of two committed logs, one is a prefix of the other. -/
theorem committed_total (h : s.Ok term root base members) (hK : ∀ p ∈ members, K <+: s.log p)
    (hP : s.Committed term members K t P) (hP' : s.Committed term members K t' P') :
    P <+: P' ∨ P' <+: P := by
  rcases hP with hP | ⟨T, -, hin⟩ <;> rcases hP' with hP' | ⟨T', -, hin'⟩
  · exact List.prefix_or_prefix_of_prefix hP hP'
  · obtain ⟨p, hp, hpre⟩ := h.prefix_member hin'
    exact List.prefix_or_prefix_of_prefix (hP.trans (hK p hp)) hpre
  · obtain ⟨p, hp, hpre⟩ := h.prefix_member hin
    exact List.prefix_or_prefix_of_prefix hpre (hP'.trans (hK p hp))
  · -- the leader of the later of the two terms has both
    rcases le_total T T' with hT | hT
    · obtain ⟨c, L, hL⟩ := hin'.led
      exact List.prefix_or_prefix_of_prefix (h.prefix_leader hin hT hL)
        (h.prefix_leader hin' le_rfl hL)
    · obtain ⟨c, L, hL⟩ := hin.led
      exact List.prefix_or_prefix_of_prefix (h.prefix_leader hin le_rfl hL)
        (h.prefix_leader hin' hT hL)

end Ok

end View
