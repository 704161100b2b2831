import DistributedMQ.Lib.TermLog

/-!
# The archive of a replicated log

A ghost record of a log replication protocol: every log that anybody has held
so far and, for every term, its leader with the leader's log.

- `Archive.Ok term root base`: the known logs match pairwise, start at the
  common root, and every entry beyond the `base` term comes from the log of its
  term's leader.
- `Archive.elect` and `Archive.extend`: a new leader enters with its log, and a
  leader's log grows by an entry of its term. Both keep `Ok`.
- `Archive.Carried`: what a request carries is the tail of a known log of its
  term's leader.
- `Archive.Ok.splice_cases`: merging what a request carries into a known log
  that passes the consistency check ends in that log or in the carried one.
-/

universe u v

namespace TermLog

/-- The logs held so far, and the leader of every term with its log. -/
structure Archive (α : Type u) (V : Type v) where
  known : List α → Prop
  led : ℕ → Option (V × List α)

namespace Archive

variable {α : Type u} {V : Type v} {term : α → ℕ} {root : α} {base : ℕ} {A A' : Archive α V}

structure Ok (term : α → ℕ) (root : α) (base : ℕ) (A : Archive α V) : Prop where
  matching : ∀ M N, A.known M → A.known N → Matching term M N
  root : ∀ M, A.known M → M[0]? = some root
  led_known : ∀ T c L, A.led T = some (c, L) → A.known L
  origin : ∀ M i b, A.known M → M[i]? = some b →
    term b ≤ base ∨ ∃ c L, A.led (term b) = some (c, L) ∧ M.take (i + 1) <+: L

/-- `A'` is a later archive: nothing is forgotten and leaders only append. -/
structure Le (A A' : Archive α V) : Prop where
  known : ∀ M, A.known M → A'.known M
  led : ∀ T c L, A.led T = some (c, L) → ∃ L', A'.led T = some (c, L') ∧ L <+: L'

theorem Le.refl (A : Archive α V) : A.Le A :=
  ⟨fun _ h => h, fun _ _ L h => ⟨L, h, List.prefix_rfl⟩⟩

theorem Le.trans {A'' : Archive α V} (h : A.Le A') (h' : A'.Le A'') : A.Le A'' := by
  refine ⟨fun M hM => h'.known M (h.known M hM), fun T c L hL => ?_⟩
  obtain ⟨L', hL', hpre⟩ := h.led T c L hL
  obtain ⟨L'', hL'', hpre'⟩ := h'.led T c L' hL'
  exact ⟨L'', hL'', hpre.trans hpre'⟩

theorem Le.led_none (h : A.Le A') {T : ℕ} (hnone : A'.led T = none) : A.led T = none := by
  cases hled : A.led T with
  | none => rfl
  | some cL =>
    obtain ⟨L', hL', -⟩ := h.led T cL.1 cL.2 hled
    exact absurd (hL'.symm.trans hnone) (by simp)

/-- `c` leads in term `T` with the log `L`. -/
def elect (A : Archive α V) (T : ℕ) (c : V) (L : List α) : Archive α V :=
  { A with led := Function.update A.led T (some (c, L)) }

/-- The leader of term `T` appends `e` to its log `L`. -/
def extend (A : Archive α V) (T : ℕ) (c : V) (L : List α) (e : α) : Archive α V where
  known := fun M => A.known M ∨ M = L ++ [e]
  led := Function.update A.led T (some (c, L ++ [e]))

theorem of_elect_led {T T' : ℕ} {c c' : V} {L L' : List α}
    (h : (A.elect T c L).led T' = some (c', L')) :
    (T' = T ∧ c' = c ∧ L' = L) ∨ A.led T' = some (c', L') := by
  by_cases hT : T' = T
  · subst hT
    have heq : some (c, L) = some (c', L') := (Function.update_self T' _ A.led).symm.trans h
    obtain ⟨rfl, rfl⟩ := Prod.mk.inj (Option.some.inj heq)
    exact Or.inl ⟨rfl, rfl, rfl⟩
  · exact Or.inr ((Function.update_of_ne hT _ A.led).symm.trans h)

theorem of_extend_led {T T' : ℕ} {c c' : V} {L L' : List α} {e : α}
    (h : (A.extend T c L e).led T' = some (c', L')) :
    (T' = T ∧ c' = c ∧ L' = L ++ [e]) ∨ A.led T' = some (c', L') :=
  of_elect_led (L := L ++ [e]) h

theorem le_elect {T : ℕ} (hnone : A.led T = none) (c : V) (L : List α) :
    A.Le (A.elect T c L) := by
  refine ⟨fun _ h => h, fun T' c' L' h' => ⟨L', ?_, List.prefix_rfl⟩⟩
  have hne : T' ≠ T := by
    rintro rfl
    rw [hnone] at h'
    cases h'
  exact (Function.update_of_ne hne _ _).trans h'

theorem Ok.elect (h : A.Ok term root base) {T : ℕ} {c : V} {L : List α}
    (hnone : A.led T = none) (hL : A.known L) : (A.elect T c L).Ok term root base where
  matching := h.matching
  root := h.root
  led_known T' c' L' h' := by
    rcases of_elect_led h' with ⟨-, -, rfl⟩ | h'
    · exact hL
    · exact h.led_known T' c' L' h'
  origin M i b hM hb := by
    rcases h.origin M i b hM hb with hbase | ⟨c', L', hled, hpre⟩
    · exact Or.inl hbase
    · obtain ⟨L'', hled', hpre'⟩ := (le_elect hnone c L).led _ c' L' hled
      exact Or.inr ⟨c', L'', hled', hpre.trans hpre'⟩

theorem le_extend {T : ℕ} {c : V} {L : List α} (hled : A.led T = some (c, L)) (e : α) :
    A.Le (A.extend T c L e) := by
  refine ⟨fun _ h => Or.inl h, fun T' c' L' h' => ?_⟩
  by_cases hT' : T' = T
  · subst hT'
    rw [hled] at h'
    obtain ⟨rfl, rfl⟩ := Prod.mk.inj (Option.some.inj h')
    exact ⟨L ++ [e], Function.update_self _ _ _, List.prefix_append L [e]⟩
  · exact ⟨L', (Function.update_of_ne hT' _ _).trans h', List.prefix_rfl⟩

/-- Nobody else can have an entry of the leader's term behind its log. -/
theorem Ok.matching_append (h : A.Ok term root base) {T : ℕ} {c : V} {L : List α} {e : α}
    (hT : base < T) (hled : A.led T = some (c, L)) (he : term e = T) {N : List α}
    (hN : A.known N) : Matching term (L ++ [e]) N := by
  intro i a b ha hb hab
  rcases lt_or_ge i L.length with hi | hi
  · rw [List.getElem?_append_left hi] at ha
    rw [List.take_append_of_le_length (by omega)]
    exact h.matching L N (h.led_known T c L hled) hN i a b ha hb hab
  · -- index `i` is the new entry, and `N` would have to be a prefix of the log before it
    have hlen : i < (L ++ [e]).length := (List.getElem?_eq_some_iff.mp ha).1
    rw [List.length_append, List.length_singleton] at hlen
    obtain rfl : i = L.length := by omega
    obtain rfl : e = a := by simpa using ha
    rcases h.origin N L.length b hN hb with hbase | ⟨c', L', hled', hpre⟩
    · omega
    · rw [← hab, he, hled] at hled'
      obtain ⟨-, rfl⟩ := Prod.mk.inj (Option.some.inj hled')
      have hle := hpre.length_le
      have hNlen := (List.getElem?_eq_some_iff.mp hb).1
      rw [List.length_take] at hle
      omega

theorem Ok.extend (h : A.Ok term root base) {T : ℕ} {c : V} {L : List α} {e : α} (hT : base < T)
    (hled : A.led T = some (c, L)) (he : term e = T) :
    (A.extend T c L e).Ok term root base := by
  have hle := le_extend hled e
  have hL := h.led_known T c L hled
  constructor
  -- two logs, each old or new
  · rintro M N (hM | rfl) (hN | rfl)
    · exact h.matching M N hM hN
    · exact (h.matching_append hT hled he hM).symm
    · exact h.matching_append hT hled he hN
    · exact .refl _
  · rintro M (hM | rfl)
    · exact h.root M hM
    · exact getElem?_of_prefix (List.prefix_append L [e]) (h.root L hL)
  · intro T' c' L' h'
    rcases of_extend_led h' with ⟨-, -, rfl⟩ | h'
    · exact Or.inr rfl
    · exact Or.inl (h.led_known T' c' L' h')
  · -- where an entry comes from does not change, and the new one comes from its leader
    have hold : ∀ M i b, A.known M → M[i]? = some b → term b ≤ base ∨
        ∃ c' L', (A.extend T c L e).led (term b) = some (c', L') ∧ M.take (i + 1) <+: L' := by
      intro M i b hM hb
      rcases h.origin M i b hM hb with hbase | ⟨c', L', hled', hpre⟩
      · exact Or.inl hbase
      · obtain ⟨L'', hled'', hpre'⟩ := hle.led _ c' L' hled'
        exact Or.inr ⟨c', L'', hled'', hpre.trans hpre'⟩
    rintro M i b (hM | rfl) hb
    · exact hold M i b hM hb
    · rcases lt_or_ge i L.length with hi | hi
      · rw [List.take_append_of_le_length (by omega)]
        exact hold L i b hL (by rwa [List.getElem?_append_left hi] at hb)
      · have hlen := (List.getElem?_eq_some_iff.mp hb).1
        rw [List.length_append, List.length_singleton] at hlen
        obtain rfl : i = L.length := by omega
        obtain rfl : e = b := by simpa using hb
        refine Or.inr ⟨c, L ++ [e], ?_, List.take_prefix _ _⟩
        rw [he]
        exact Function.update_self _ _ _

/-! ## Requests -/

/-- The log `M` a request of `c` in term `T` was cut from: the entries are its
tail behind `prev`. -/
structure CarriedLog (term : α → ℕ) (A : Archive α V) (T : ℕ) (c : V) (prev prevTerm : ℕ)
    (es M : List α) : Prop where
  led : ∃ L, A.led T = some (c, L) ∧ M <+: L
  known : A.known M
  prev_lt : prev < M.length
  prevTerm : 0 < prev → M[prev]?.map term = some prevTerm
  entries : es = M.drop (prev + 1)

/-- A request carries the tail of a log of its leader. -/
def Carried (term : α → ℕ) (A : Archive α V) (T : ℕ) (c : V) (prev prevTerm : ℕ)
    (es : List α) : Prop :=
  ∃ M, CarriedLog term A T c prev prevTerm es M

theorem CarriedLog.mono (hle : A.Le A') {T : ℕ} {c : V} {prev prevTerm : ℕ} {es M : List α}
    (h : CarriedLog term A T c prev prevTerm es M) :
    CarriedLog term A' T c prev prevTerm es M := by
  obtain ⟨L, hled, hpre⟩ := h.led
  obtain ⟨L', hled', hpre'⟩ := hle.led T c L hled
  exact ⟨⟨L', hled', hpre.trans hpre'⟩, hle.known M h.known, h.prev_lt, h.prevTerm, h.entries⟩

/-- The request's log ends with its last entry. -/
theorem CarriedLog.length_eq {T : ℕ} {c : V} {prev prevTerm : ℕ} {es M : List α}
    (h : CarriedLog term A T c prev prevTerm es M) : prev + es.length + 1 = M.length := by
  have := h.prev_lt
  rw [h.entries, List.length_drop]
  omega

theorem Carried.mono (hle : A.Le A') {T : ℕ} {c : V} {prev prevTerm : ℕ} {es : List α}
    (h : Carried term A T c prev prevTerm es) : Carried term A' T c prev prevTerm es := by
  obtain ⟨M, hM⟩ := h
  exact ⟨M, hM.mono hle⟩

/-- A known log that passes the consistency check agrees with the carried one
up to the entry checked. -/
theorem Ok.agree (h : A.Ok term root base) {T : ℕ} {c : V} {prev prevTerm : ℕ} {es M N : List α}
    (hM : CarriedLog term A T c prev prevTerm es M) (hN : A.known N) (hprev : prev < N.length)
    (hcheck : prev = 0 ∨ N[prev]?.map term = some prevTerm) :
    N.take (prev + 1) = M.take (prev + 1) := by
  rcases Nat.eq_zero_or_pos prev with rfl | hpos
  · -- both start at the root
    refine h.matching N M hN hM.known 0 root root (h.root N hN) (h.root M hM.known) rfl
  · obtain ⟨a, ha, hat⟩ : ∃ a, N[prev]? = some a ∧ term a = prevTerm := by
      rcases hcheck with hzero | hmap
      · omega
      · simpa using hmap
    obtain ⟨b, hb, hbt⟩ : ∃ b, M[prev]? = some b ∧ term b = prevTerm := by
      simpa using hM.prevTerm hpos
    exact h.matching N M hN hM.known prev a b ha hb (hat.trans hbt.symm)

/-- **Merging a request** into a known log that passes the consistency check
gives that log back if the carried log is a prefix of it, and the carried log
otherwise. -/
theorem Ok.splice_cases (h : A.Ok term root base) {T : ℕ} {c : V} {prev prevTerm : ℕ}
    {es M N : List α} (hM : CarriedLog term A T c prev prevTerm es M) (hN : A.known N)
    (hprev : prev < N.length) (hcheck : prev = 0 ∨ N[prev]?.map term = some prevTerm) :
    (M <+: N ∧ splice term N (prev + 1) es = N) ∨
      (¬ M <+: N ∧ splice term N (prev + 1) es = M) := by
  rw [hM.entries]
  exact splice_eq (h.matching N M hN hM.known) _ (prev + 1) rfl hprev
    (h.agree hM hN hprev hcheck) hM.prev_lt

end Archive

end TermLog
