import DistributedMQ.Lib.Slice

/-!
# Logs whose entries carry a term

General facts about lists of entries with a term, as a replicated log keeps
them.

- `TermLog.Matching term M N`: equal terms at one index make the two logs equal
  up to that index (the log matching property of one pair of logs).
- `TermLog.splice`: walk along the entries received for index `k` and after;
  append what is missing, cut the log at the first entry of a different term.
- `TermLog.splice_eq`: against a log `M` that matches and agrees up to `k`, the
  walk over `M`'s entries from `k` on ends in the old log if `M` is a prefix of
  it and in `M` otherwise. Nothing else can come out, which is why stale and
  overlapping requests do no harm.
- `TermLog.Agree F L i`: the logs are equal up to `i`. `TermLog.splice_agree`: no
  walk over a part of `L` takes an agreement with `L` away.
- `GoSlice.splice`: the same walk on a slice, with the windows it leaves alone
  (`GoSlice.read_splice`).
-/

universe u

variable {α : Type u} (term : α → ℕ)

namespace TermLog

/-- Equal terms at an index mean equal logs up to that index. -/
def Matching (M N : List α) : Prop :=
  ∀ i a b, M[i]? = some a → N[i]? = some b → term a = term b →
    M.take (i + 1) = N.take (i + 1)

/-- One step of the walk: entry `e` for index `k`. -/
def spliceOne (L : List α) (k : ℕ) (e : α) : List α :=
  match L[k]? with
  | none => L ++ [e]
  | some a => if term a = term e then L else L.take k ++ [e]

/-- The walk over the entries for index `k` and after. -/
def splice (L : List α) (k : ℕ) : List α → List α
  | [] => L
  | e :: es => splice (spliceOne term L k e) (k + 1) es

variable {term}

/-- A log that has entries does not lose them all. -/
theorem splice_length_pos (es : List α) :
    ∀ (L : List α) (k : ℕ), 0 < L.length → 0 < (splice term L k es).length := by
  induction es with
  | nil => exact fun L k hpos => hpos
  | cons e es ih =>
    intro L k hpos
    refine ih _ _ ?_
    unfold spliceOne
    split
    · simp
    split
    · exact hpos
    · simp

/-- A prefix reads as the whole log. -/
theorem getElem?_of_prefix {M L : List α} (h : M <+: L) {i : ℕ} {a : α}
    (ha : M[i]? = some a) : L[i]? = some a := by
  obtain ⟨hi, rfl⟩ := List.getElem?_eq_some_iff.mp ha
  exact List.prefix_iff_getElem?.mp h i hi

theorem Matching.symm {M N : List α} (h : Matching term M N) : Matching term N M :=
  fun i a b ha hb hab => (h i b a hb ha hab.symm).symm

theorem Matching.refl (M : List α) : Matching term M M := fun _ _ _ _ _ _ => rfl

/-- Two prefixes of one log match. -/
theorem matching_of_prefix {M N K : List α} (hM : M <+: K) (hN : N <+: K) :
    Matching term M N := by
  intro i a b ha hb _
  have hi := (List.getElem?_eq_some_iff.mp ha).1
  have hj := (List.getElem?_eq_some_iff.mp hb).1
  have hMK : M.take (i + 1) = K.take (i + 1) := by
    obtain ⟨t, rfl⟩ := hM
    rw [List.take_append_of_le_length hi]
  have hNK : N.take (i + 1) = K.take (i + 1) := by
    obtain ⟨t, rfl⟩ := hN
    rw [List.take_append_of_le_length hj]
  rw [hMK, hNK]

/-- A log that shares an entry with `L` has everything `L` has before it. -/
theorem Matching.prefix_of_getElem? {L M N : List α} {i : ℕ} {e : α} (h : Matching term N L)
    (hpre : M <+: L) (hN : N[i]? = some e) (hL : L[i]? = some e) (hi : M.length ≤ i) :
    M <+: N := by
  have htake : N.take (i + 1) = L.take (i + 1) := h i e e hN hL rfl
  have hM : M <+: L.take (i + 1) := List.prefix_take_iff.mpr ⟨hpre, by omega⟩
  rw [← htake] at hM
  exact hM.trans (List.take_prefix _ _)

/-- The entries of a log that another one lacks, with their indices from `k` on. -/
def surplus [DecidableEq α] : List α → List α → ℕ → List (ℕ × α)
  | [], _, _ => []
  | a :: L, M, k =>
    if M.head? = some a then surplus L M.tail (k + 1) else (k, a) :: surplus L M.tail (k + 1)

theorem mem_surplus [DecidableEq α] {n : ℕ} {e : α} (L : List α) :
    ∀ (M : List α) (k : ℕ), (n, e) ∈ surplus L M k ↔
      ∃ i, n = k + i ∧ L[i]? = some e ∧ M[i]? ≠ some e := by
  induction L with
  | nil => simp [surplus]
  | cons a L ih =>
    intro M k
    have hsplit : (n, e) ∈ surplus (a :: L) M k ↔
        (n = k ∧ e = a ∧ M[0]? ≠ some a) ∨ (n, e) ∈ surplus L M.tail (k + 1) := by
      rw [← List.head?_eq_getElem?, surplus]
      by_cases hhead : M.head? = some a
      · simp [hhead]
      · simp [hhead]
    rw [hsplit, ih]
    constructor
    · rintro (⟨rfl, rfl, hne⟩ | ⟨i, rfl, hi, hne⟩)
      · exact ⟨0, rfl, rfl, hne⟩
      · exact ⟨i + 1, by omega, hi, by rwa [List.getElem?_tail] at hne⟩
    · rintro ⟨_ | i, rfl, hi, hne⟩
      · obtain rfl : a = e := by simpa using hi
        exact Or.inl ⟨rfl, rfl, hne⟩
      · exact Or.inr ⟨i, by omega, hi, by rwa [List.getElem?_tail]⟩

/-- The walk rebuilds a log from one of its prefixes. -/
theorem splice_take (M : List α) :
    ∀ (n k : ℕ), M.length - k = n → splice term (M.take k) k (M.drop k) = M := by
  intro n
  induction n with
  | zero =>
    intro k h
    rw [List.drop_eq_nil_of_le (by omega), List.take_of_length_le (by omega)]
    rfl
  | succ n ih =>
    intro k h
    have hk : k < M.length := by omega
    have hnone : (M.take k)[k]? = none := List.getElem?_eq_none (by simp)
    rw [List.drop_eq_getElem_cons hk, splice, spliceOne, hnone]
    show splice term (M.take k ++ [M[k]]) (k + 1) (M.drop (k + 1)) = M
    rw [List.take_append_getElem hk]
    exact ih (k + 1) (by omega)

/-- **What the walk can end in**: if `L` and `M` match and agree up to `k`,
splicing `M`'s entries from `k` on gives `L` back when `M` is a prefix of `L`
and `M` otherwise. -/
theorem splice_eq {L M : List α} (hm : Matching term L M) :
    ∀ (n k : ℕ), M.length - k = n → k ≤ L.length → L.take k = M.take k → k ≤ M.length →
      (M <+: L ∧ splice term L k (M.drop k) = L) ∨
        (¬ M <+: L ∧ splice term L k (M.drop k) = M) := by
  intro n
  -- on what of `M` is still to be walked
  induction n with
  | zero =>
    intro k h hkL hag hkM
    obtain rfl : k = M.length := by omega
    refine Or.inl ⟨?_, by rw [List.drop_length]; rfl⟩
    rw [List.take_length] at hag
    rw [← hag]
    exact List.take_prefix _ _
  | succ n ih =>
    intro k h hkL hag hkM
    have hk : k < M.length := by omega
    have hrebuild : splice term (M.take k ++ [M[k]]) (k + 1) (M.drop (k + 1)) = M := by
      rw [List.take_append_getElem hk]
      exact splice_take M _ (k + 1) rfl
    rw [List.drop_eq_getElem_cons hk, splice, spliceOne]
    cases hL : L[k]? with
    | none =>
      -- the log ends here: everything that follows is appended
      have hlen : L.length = k := le_antisymm (List.getElem?_eq_none_iff.mp hL) hkL
      refine Or.inr ⟨fun hpre => ?_, ?_⟩
      · have := hpre.length_le
        omega
      · show splice term (L ++ [M[k]]) (k + 1) (M.drop (k + 1)) = M
        rwa [← List.take_of_length_le (le_of_eq hlen), hag]
    | some a =>
      by_cases hterm : term a = term M[k]
      · simp only [hterm, if_true]
        have hstep : L.take (k + 1) = M.take (k + 1) :=
          hm k a M[k] hL (List.getElem?_eq_getElem hk) hterm
        have hkL' : k < L.length := (List.getElem?_eq_some_iff.mp hL).1
        exact ih (k + 1) (by omega) (by omega) hstep (by omega)
      · -- first conflicting entry: the rest of the log is replaced
        simp only [if_neg hterm]
        refine Or.inr ⟨fun hpre => hterm ?_, ?_⟩
        · have hMk : L[k]? = some M[k] :=
            getElem?_of_prefix hpre (List.getElem?_eq_getElem hk)
          rw [hL] at hMk
          rw [Option.some.inj hMk]
        · rwa [hag]

/-! ## Agreement up to an index -/

/-- Both logs have the same entry at every index up to `i`. -/
def Agree (F L : List α) (i : ℕ) : Prop := ∀ j ≤ i, ∃ a, F[j]? = some a ∧ L[j]? = some a

theorem agree_iff {F L : List α} {i : ℕ} : Agree F L i ↔ i < L.length ∧ L.take (i + 1) <+: F := by
  constructor
  · intro h
    obtain ⟨a, -, ha⟩ := h i (Nat.le_refl i)
    refine ⟨(List.getElem?_eq_some_iff.mp ha).1, List.prefix_iff_getElem?.mpr fun j hj => ?_⟩
    rw [List.length_take] at hj
    obtain ⟨b, hF, hL⟩ := h j (by omega)
    obtain ⟨hlt, rfl⟩ := List.getElem?_eq_some_iff.mp hL
    rw [hF, List.getElem_take]
  · rintro ⟨hi, hpre⟩ j hj
    have hlt : j < L.length := by omega
    have hL : L[j]? = some L[j] := List.getElem?_eq_getElem hlt
    refine ⟨L[j], getElem?_of_prefix hpre ?_, hL⟩
    rw [List.getElem?_take_of_lt (by omega), hL]

theorem Agree.mono {F L : List α} {i j : ℕ} (h : Agree F L i) (hj : j ≤ i) : Agree F L j :=
  fun k hk => h k (hk.trans hj)

theorem Agree.take_eq {F L : List α} {i : ℕ} (h : Agree F L i) :
    F.take (i + 1) = L.take (i + 1) := by
  obtain ⟨hi, t, rfl⟩ := agree_iff.mp h
  have hlen : (L.take (i + 1)).length = i + 1 := by
    rw [List.length_take]
    omega
  rw [List.take_left' hlen]

/-- Logs that agree with a third one up to an index have the same entries there. -/
theorem Agree.getElem?_eq {F N L : List α} {i j : ℕ} (hF : Agree F L i) (hN : Agree N L i)
    (hj : j ≤ i) : N[j]? = F[j]? := by
  obtain ⟨a, haF, haL⟩ := hF j hj
  obtain ⟨b, hbN, hbL⟩ := hN j hj
  rw [hbN, haF, ← hbL, haL]

theorem Matching.agree {F L : List α} (h : Matching term F L) {i : ℕ} {a b : α}
    (ha : F[i]? = some a) (hb : L[i]? = some b) (hterm : term a = term b) : Agree F L i := by
  refine agree_iff.mpr ⟨(List.getElem?_eq_some_iff.mp hb).1, ?_⟩
  rw [← h i a b ha hb hterm]
  exact List.take_prefix _ _

theorem Matching.mono {F L M : List α} (h : Matching term F L) (hM : M <+: L) :
    Matching term F M := by
  intro i a b ha hb hterm
  have hlt := (List.getElem?_eq_some_iff.mp hb).1
  have hbL := getElem?_of_prefix hM hb
  rw [h i a b ha hbL hterm]
  obtain ⟨t, rfl⟩ := hM
  rw [List.take_append_of_le_length hlt]

/-- **Merging a part of a log.** The logs agree up to `prev`, and the entries of `L` behind it up
to `last` are walked along. Afterwards they agree up to `last`, and still up to where they
have agreed before. -/
theorem splice_agree {F L : List α} (hm : Matching term F L) {prev last : ℕ}
    (hprev : Agree F L prev) (hle : prev ≤ last) (hlast : last < L.length) :
    Matching term (splice term F (prev + 1) ((L.take (last + 1)).drop (prev + 1))) L ∧
      Agree (splice term F (prev + 1) ((L.take (last + 1)).drop (prev + 1))) L last ∧
      ∀ i, Agree F L i →
        Agree (splice term F (prev + 1) ((L.take (last + 1)).drop (prev + 1))) L i := by
  have hM : L.take (last + 1) <+: L := List.take_prefix _ _
  have hlen : (L.take (last + 1)).length = last + 1 := by
    rw [List.length_take]
    omega
  have hkF : prev + 1 ≤ F.length := by
    obtain ⟨a, ha, -⟩ := hprev prev (Nat.le_refl prev)
    exact (List.getElem?_eq_some_iff.mp ha).1
  have htake : F.take (prev + 1) = (L.take (last + 1)).take (prev + 1) := by
    rw [hprev.take_eq, List.take_take, Nat.min_eq_left (by omega)]
  rcases splice_eq (hm.mono hM) _ (prev + 1) rfl hkF htake (by omega) with
    ⟨hpre, heq⟩ | ⟨hno, heq⟩
  · rw [heq]
    exact ⟨hm, agree_iff.mpr ⟨hlast, hpre⟩, fun i hi => hi⟩
  · rw [heq]
    have hagree : Agree (L.take (last + 1)) L last := agree_iff.mpr ⟨hlast, List.prefix_rfl⟩
    have hmatching : Matching term (L.take (last + 1)) L :=
      matching_of_prefix hM List.prefix_rfl
    refine ⟨hmatching, hagree, fun i hi => ?_⟩
    -- an agreement behind `last` would have left nothing to do
    refine hagree.mono (Nat.le_of_not_lt fun hlt => hno ?_)
    exact (agree_iff.mp (hi.mono hlt.le)).2

end TermLog

namespace GoSlice

open TermLog

/-- One step of the walk on a slice: `append` behind the end, and at a
conflicting entry `append(s[:k], e)` into the shared array. -/
def spliceOne [GrowthPolicy] (s : GoSlice α) (k : ℕ) (e : α) : GoSlice α :=
  match s.elems[k]? with
  | none => s.append e
  | some a => if term a = term e then s else (s.trunc k).append e

/-- The walk over the entries for index `k` and after, on a slice. -/
def splice [GrowthPolicy] (s : GoSlice α) (k : ℕ) : List α → GoSlice α
  | [] => s
  | e :: es => splice (spliceOne term s k e) (k + 1) es

variable {term}

theorem elems_spliceOne [GrowthPolicy] (s : GoSlice α) (k : ℕ) (e : α) :
    (s.spliceOne term k e).elems = TermLog.spliceOne term s.elems k e := by
  unfold spliceOne TermLog.spliceOne
  cases s.elems[k]? with
  | none => simp
  | some a => by_cases h : term a = term e <;> simp [h]

@[simp] theorem elems_splice [GrowthPolicy] (es : List α) :
    ∀ (s : GoSlice α) (k : ℕ), (s.splice term k es).elems = TermLog.splice term s.elems k es := by
  induction es with
  | nil => intro s k; rfl
  | cons e es ih =>
    intro s k
    show ((s.spliceOne term k e).splice term (k + 1) es).elems = _
    rw [ih, elems_spliceOne]
    rfl

/-- No entry of the walk conflicts with the log in front of index `hi`. -/
def NoConflict (term : α → ℕ) (L : List α) (k : ℕ) (es : List α) (hi : ℕ) : Prop :=
  ∀ j e a, es[j]? = some e → k + j < hi → L[k + j]? = some a → term a = term e

theorem noConflict_iff {L : List α} {k : ℕ} {es : List α} {hi : ℕ} :
    NoConflict term L k es hi ↔ ∀ j < es.length, k + j < hi →
      L[k + j]?.map term = none ∨ L[k + j]?.map term = es[j]?.map term := by
  constructor
  · intro h j hj hlt
    cases hL : L[k + j]? with
    | none => exact Or.inl rfl
    | some a =>
      rw [List.getElem?_eq_getElem hj]
      exact Or.inr (congrArg some (h j _ a (List.getElem?_eq_getElem hj) hlt hL))
  · intro h j e a he hlt ha
    have hj := (List.getElem?_eq_some_iff.mp he).1
    rcases h j hj hlt with hnone | heq
    · rw [ha] at hnone
      cases hnone
    · rw [ha, he] at heq
      exact Option.some.inj heq

instance (L : List α) (k : ℕ) (es : List α) (hi : ℕ) : Decidable (NoConflict term L k es hi) :=
  decidable_of_iff _ noConflict_iff.symm

/-- Behind the last written slot there is nothing left to conflict with. -/
theorem noConflict_of_length_le {L : List α} {k : ℕ} (h : L.length ≤ k) (es : List α) (hi : ℕ) :
    NoConflict term L k es hi := by
  intro j e a _ _ ha
  have := (List.getElem?_eq_some_iff.mp ha).1
  omega

theorem NoConflict.spliceOne {L : List α} {k hi : ℕ} {e : α} {es : List α}
    (h : NoConflict term L k (e :: es) hi) :
    NoConflict term (TermLog.spliceOne term L k e) (k + 1) es hi := by
  unfold TermLog.spliceOne
  cases hL : L[k]? with
  | none =>
    have hlen := List.getElem?_eq_none_iff.mp hL
    exact noConflict_of_length_le (by simp; omega) es hi
  | some a =>
    by_cases ht : term a = term e
    · simp only [ht, if_true]
      intro j e' a' he' hj ha'
      exact h (j + 1) e' a' (by simpa using he') (by omega)
        (by rw [← ha']; congr 1; omega)
    · simp only [if_neg ht]
      exact noConflict_of_length_le (by simp) es hi

/-- The walk leaves the front of the log alone if no entry conflicts in it. -/
theorem take_splice {hi : ℕ} (es : List α) :
    ∀ (L : List α) (k : ℕ), hi ≤ L.length → NoConflict term L k es hi →
      hi ≤ (TermLog.splice term L k es).length ∧
        (TermLog.splice term L k es).take hi = L.take hi := by
  induction es with
  | nil => intro L k hlen _; exact ⟨hlen, rfl⟩
  | cons e es ih =>
    intro L k hlen hc
    have hone : hi ≤ (TermLog.spliceOne term L k e).length ∧
        (TermLog.spliceOne term L k e).take hi = L.take hi := by
      unfold TermLog.spliceOne
      cases hL : L[k]? with
      | none => exact ⟨by simp; omega, List.take_append_of_le_length hlen⟩
      | some a =>
        by_cases ht : term a = term e
        · simp only [ht, if_true]
          exact ⟨hlen, trivial⟩
        · -- a conflict, which can only be behind `hi`
          have hk : hi ≤ k := by
            by_contra hlt
            exact ht (hc 0 e a rfl (by omega) (by simpa using hL))
          have hkL : k < L.length := (List.getElem?_eq_some_iff.mp hL).1
          simp only [if_neg ht]
          refine ⟨by simp; omega, ?_⟩
          rw [List.take_append_of_le_length (by simp; omega), List.take_take, Nat.min_eq_left hk]
    obtain ⟨hlen', htake⟩ := ih _ (k + 1) hone.1 hc.spliceOne
    exact ⟨hlen', htake.trans hone.2⟩

/-- The walk puts nothing into the log but the given entries. -/
theorem mem_splice (es : List α) :
    ∀ (L : List α) (k : ℕ) {a : α}, a ∈ TermLog.splice term L k es → a ∈ L ∨ a ∈ es := by
  induction es with
  | nil => exact fun L k a h => Or.inl h
  | cons e es ih =>
    intro L k a h
    have hone : ∀ b ∈ TermLog.spliceOne term L k e, b ∈ L ∨ b = e := by
      intro b hb
      unfold TermLog.spliceOne at hb
      cases hL : L[k]? with
      | none =>
        rw [hL] at hb
        exact (List.mem_append.mp hb).imp id List.mem_singleton.mp
      | some c =>
        rw [hL] at hb
        dsimp only at hb
        split at hb
        · exact Or.inl hb
        · exact (List.mem_append.mp hb).imp List.mem_of_mem_take List.mem_singleton.mp
    rcases ih _ (k + 1) h with h | h
    · rcases hone a h with h | rfl
      · exact Or.inl h
      · exact Or.inr List.mem_cons_self
    · exact Or.inr (List.mem_cons_of_mem _ h)

/-- One step of the walk leaves a window alone that it does not conflict with. -/
theorem read_spliceOne [GrowthPolicy] {s : GoSlice α} {v : GoWindow} {k : ℕ} {e : α}
    {es : List α} (hin : s.Inside v)
    (hc : v.base = s.base → NoConflict term s.elems k (e :: es) (v.lo + v.len)) :
    (s.spliceOne term k e).Inside v ∧ (s.spliceOne term k e).read v = s.read v := by
  unfold spliceOne
  cases hL : s.elems[k]? with
  | none => exact ⟨hin.append e, read_append hin e⟩
  | some a =>
    by_cases ht : term a = term e
    · simp only [ht, if_true]
      exact ⟨hin, trivial⟩
    · simp only [if_neg ht]
      have hhi : v.base = s.base → v.lo + v.len ≤ k := by
        intro hv
        by_contra hlt
        exact ht (hc hv 0 e a rfl (by omega) (by simpa using hL))
      have hin' := hin.trunc hhi
      exact ⟨hin'.append e, by rw [read_append hin', read_trunc]⟩

theorem base_spliceOne_le [GrowthPolicy] (s : GoSlice α) (k : ℕ) (e : α) :
    s.base ≤ (s.spliceOne term k e).base := by
  unfold spliceOne
  cases s.elems[k]? with
  | none => exact base_append_le s e
  | some a =>
    by_cases ht : term a = term e
    · simp [ht]
    · simp only [if_neg ht]
      exact base_append_le (s.trunc k) e

/-- The walk leaves a window alone if no entry conflicts in front of its end. -/
theorem read_splice [GrowthPolicy] {v : GoWindow} (es : List α) :
    ∀ (s : GoSlice α) (k : ℕ), k ≤ s.len → s.Inside v →
      (v.base = s.base → NoConflict term s.elems k es (v.lo + v.len)) →
      (s.splice term k es).Inside v ∧ (s.splice term k es).read v = s.read v := by
  induction es with
  | nil => intro s k _ hin _; exact ⟨hin, rfl⟩
  | cons e es ih =>
    intro s k hk hin hc
    obtain ⟨hin₁, hread₁⟩ := read_spliceOne hin hc
    have hlen : k + 1 ≤ (s.spliceOne term k e).len := by
      unfold len
      rw [elems_spliceOne]
      unfold TermLog.spliceOne len at *
      cases hL : s.elems[k]? with
      | none => simp; omega
      | some a =>
        have := (List.getElem?_eq_some_iff.mp hL).1
        by_cases ht : term a = term e <;> simp [ht] <;> omega
    have hc₁ : v.base = (s.spliceOne term k e).base →
        NoConflict term (s.spliceOne term k e).elems (k + 1) es (v.lo + v.len) := by
      intro hv
      rw [elems_spliceOne]
      have hb := @base_spliceOne_le α term _ s k e
      exact (hc (le_antisymm hin.base_le (hv ▸ hb))).spliceOne
    obtain ⟨hin₂, hread₂⟩ := ih _ (k + 1) hlen hin₁ hc₁
    exact ⟨hin₂, hread₂.trans hread₁⟩

end GoSlice
