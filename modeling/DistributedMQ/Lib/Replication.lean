import DistributedMQ.Lib.Archive
import DistributedMQ.Lib.Majority

/-!
# Leader completeness, abstractly

What a replicated log needs to keep an entry once a majority has accepted it,
without messages, timers or any particular rule for granting votes.

- `View`: the members' terms and logs, the vote book, the archive of logs, and
  the last index every member has accepted in every term.
- `View.Choosable T i`: a majority has accepted index `i` in term `T` or is
  still free to. What is not choosable any more never becomes so again
  (`View.Choosable.anti`).
- `View.Ok`: a choosable entry is in the log of everybody who has accepted it
  (`holds`), in the log of every later leader (`complete`), and in the log of
  every candidate with a vote from somebody who has accepted it (`backed`).
- The moves `View.ballot`, `View.elect`, `View.extend` and `View.accept` keep
  `View.Ok`. All the vote granting rule has to provide is that a voter's
  choosable entries are in the log of the candidate it votes for.
- `View.Ok.later_leader`: what a majority has accepted, every later leader has.
-/

universe u v

open TermLog

variable {α : Type u} {V : Type v}

structure View (α : Type u) (V : Type v) where
  term : V → ℕ
  log : V → List α
  /-- The candidates. -/
  running : V → Prop
  book : VoteBook V
  archive : Archive α V
  /-- The last index a member has accepted in a term, 0 if none. -/
  acc : V → ℕ → ℕ

namespace View

/-- A majority has accepted index `i` in term `T`, or still may. -/
def Choosable (members : List V) (s : View α V) (T i : ℕ) : Prop :=
  Majority members fun p => i ≤ s.acc p T ∨ s.term p ≤ T

/-- `e` is an entry of term `T` at index `i` of the log of its leader. -/
def Entry (term : α → ℕ) (s : View α V) (T i : ℕ) (e : α) : Prop :=
  0 < i ∧ term e = T ∧ ∃ c L, s.archive.led T = some (c, L) ∧ L[i]? = some e

/-- `c` has every choosable entry of earlier terms that `v` has accepted. -/
def Covers (term : α → ℕ) (members : List V) (s : View α V) (c v : V) (t : ℕ) : Prop :=
  ∀ T i e, s.Entry term T i e → T < t → i ≤ s.acc v T → s.Choosable members T i →
    (s.log c)[i]? = some e

structure Ok (term : α → ℕ) (root : α) (base : ℕ) (members : List V) (s : View α V) : Prop where
  archive : s.archive.Ok term root base
  known : ∀ p ∈ members, s.archive.known (s.log p)
  won : ∀ T c L, s.archive.led T = some (c, L) → s.book.Won members T c
  voted : ∀ p ∈ members, ∀ t c, s.book p t = some c → t ≤ s.term p
  ran : ∀ p ∈ members, ∀ t c, s.book p t = some c → c ∈ members → t ≤ s.term c
  bound : ∀ p ∈ members, ∀ T, 0 < s.acc p T → T ≤ s.term p ∧
    ∃ c L, s.archive.led T = some (c, L) ∧ s.acc p T < L.length
  holds : ∀ p ∈ members, ∀ T i e, s.Entry term T i e → i ≤ s.acc p T →
    s.Choosable members T i → (s.log p)[i]? = some e
  complete : ∀ T T' i e c L, s.Entry term T i e → T < T' → s.archive.led T' = some (c, L) →
    s.Choosable members T i → L[i]? = some e
  backed : ∀ c ∈ members, s.running c → s.archive.led (s.term c) = none →
    ∀ v ∈ members, s.book v (s.term c) = some c → s.Covers term members c v (s.term c)

variable {term : α → ℕ} {root : α} {base : ℕ} {members : List V} {s s' : View α V}

/-- Terms only grow, and a member accepts only in terms it has not left: nothing
becomes choosable again. -/
theorem Choosable.anti {T i : ℕ} (h : s'.Choosable members T i)
    (hterm : ∀ p ∈ members, s.term p ≤ s'.term p)
    (hacc : ∀ p ∈ members, i ≤ s'.acc p T → i ≤ s.acc p T ∨ s.term p ≤ T) :
    s.Choosable members T i := by
  refine Majority.mono (fun p hp hor => ?_) h
  rcases hor with hi | ht
  · exact hacc p hp hi
  · exact Or.inr ((hterm p hp).trans ht)

/-- What a majority has accepted stays choosable. -/
theorem choosable_of_accepted {T i : ℕ} (h : Majority members fun p => i ≤ s.acc p T) :
    s.Choosable members T i :=
  Majority.mono (fun _ _ hi => Or.inl hi) h

/-- A choosable entry meets every election of a later term: a voter of that
term has left `T` behind, so it must have accepted the entry. -/
theorem Ok.choosable_voter (h : s.Ok term root base members) {T t i : ℕ} {c : V} (hlt : T < t)
    (hch : s.Choosable members T i) (hwon : s.book.Won members t c) :
    ∃ v ∈ members, s.book v t = some c ∧ i ≤ s.acc v T := by
  obtain ⟨v, hv, hor, hbook⟩ := Majority.inter hch hwon
  rcases hor with hi | hterm
  · exact ⟨v, hv, hbook, hi⟩
  · have := h.voted v hv t c hbook
    omega

/-- Nobody has accepted anything in a term without a leader. -/
theorem Ok.acc_eq_zero (h : s.Ok term root base members) {p : V} {T : ℕ} (hp : p ∈ members)
    (hnone : s.archive.led T = none) : s.acc p T = 0 := by
  by_contra hne
  obtain ⟨-, c, L, hled, -⟩ := h.bound p hp T (Nat.pos_of_ne_zero hne)
  exact absurd (hled.symm.trans hnone) (by simp)

/-- Nobody has accepted an index behind the leader's log in the leader's term. -/
theorem Ok.acc_lt (h : s.Ok term root base members) {c : V} {L : List α} {T : ℕ} {p : V}
    (hp : p ∈ members) (hpos : 0 < L.length) (hled : s.archive.led T = some (c, L)) :
    s.acc p T < L.length := by
  rcases Nat.eq_zero_or_pos (s.acc p T) with hzero | hacc
  · omega
  · obtain ⟨-, c', L', hled', hlt⟩ := h.bound p hp T hacc
    rw [hled] at hled'
    obtain ⟨-, rfl⟩ := Prod.mk.inj (Option.some.inj hled')
    exact hlt

/-- **What a majority has accepted, every later leader has.** -/
theorem Ok.later_leader (h : s.Ok term root base members) {T T' i : ℕ} {e : α} {c : V}
    {L : List α} (hentry : s.Entry term T i e) (hlt : T < T')
    (hled : s.archive.led T' = some (c, L))
    (hmaj : Majority members fun p => i ≤ s.acc p T) : L[i]? = some e :=
  h.complete T T' i e c L hentry hlt hled (choosable_of_accepted hmaj)

/-! ## Terms, candidates and votes -/

/-- Terms, candidates and votes move; logs do not. -/
def ballot (s : View α V) (term' : V → ℕ) (running' : V → Prop) (book' : VoteBook V) :
    View α V :=
  { s with term := term', running := running', book := book' }

/-- A candidate has entered a new term or stayed in its old one, and a vote for
a running candidate covers the voter's choosable entries. -/
theorem Ok.ballot (h : s.Ok term root base members) {term' : V → ℕ} {running' : V → Prop}
    {book' : VoteBook V} (hterm : ∀ p ∈ members, s.term p ≤ term' p)
    (hrun : ∀ c ∈ members, running' c → (s.running c ∧ term' c = s.term c) ∨ s.term c < term' c)
    (hgrow : s.book.Extends book')
    (hnew : ∀ v ∈ members, ∀ t c, book' v t = some c → s.book v t = some c ∨
      (t ≤ term' v ∧ (c ∈ members → t ≤ term' c) ∧
        (v ≠ c → c ∈ members → running' c → term' c = t → s.archive.led t = none →
          s.Covers term members c v t))) :
    (s.ballot term' running' book').Ok term root base members := by
  have hanti : ∀ {T i}, (s.ballot term' running' book').Choosable members T i →
      s.Choosable members T i :=
    fun hch => hch.anti hterm fun _ _ hi => Or.inl hi
  constructor
  case archive => exact h.archive
  case known => exact h.known
  case won => exact fun T c L hL => hgrow.won (h.won T c L hL)
  case voted =>
    intro p hp t c hc
    rcases hnew p hp t c hc with hold | ⟨ht, -, -⟩
    · exact (h.voted p hp t c hold).trans (hterm p hp)
    · exact ht
  case ran =>
    intro p hp t c hc hmem
    rcases hnew p hp t c hc with hold | ⟨-, ht, -⟩
    · exact (h.ran p hp t c hold hmem).trans (hterm c hmem)
    · exact ht hmem
  case bound =>
    intro p hp T hpos
    obtain ⟨hT, hled⟩ := h.bound p hp T hpos
    exact ⟨hT.trans (hterm p hp), hled⟩
  case holds => exact fun p hp T i e he hi hch => h.holds p hp T i e he hi (hanti hch)
  case complete =>
    exact fun T T' i e c L he hlt hL hch => h.complete T T' i e c L he hlt hL (hanti hch)
  case backed =>
    intro c hc hrunning hnone v hv hbook T i e he hlt hi hch
    -- the candidate's own entries need no vote
    by_cases hvc : v = c
    · subst hvc
      exact h.holds v hv T i e he hi (hanti hch)
    rcases hnew v hv _ c hbook with hold | ⟨-, -, hcovers⟩
    · rcases hrun c hc hrunning with ⟨hwas, heq⟩ | hnewTerm
      · change s.archive.led (term' c) = none at hnone
        change s.book v (term' c) = some c at hold
        change T < term' c at hlt
        rw [heq] at hnone hold hlt
        exact h.backed c hc hwas hnone v hv hold T i e he hlt hi (hanti hch)
      · -- nobody can have voted for a term the candidate has only now entered
        exact absurd (h.ran v hv _ c hold hc) (not_le.mpr hnewTerm)
    · exact hcovers hvc hc hrunning rfl hnone T i e he hlt hi (hanti hch)

section moves

variable [DecidableEq V]

/-- Set what `c` has accepted in term `t`. -/
def setAcc (acc : V → ℕ → ℕ) (c : V) (t k : ℕ) : V → ℕ → ℕ :=
  fun p T => if p = c ∧ T = t then k else acc p T

theorem setAcc_cases {acc : V → ℕ → ℕ} {c : V} {t k : ℕ} {p : V} {T i : ℕ}
    (h : i ≤ setAcc acc c t k p T) : (p = c ∧ T = t ∧ i ≤ k) ∨ i ≤ acc p T := by
  unfold setAcc at h
  split at h
  · rename_i heq
    exact Or.inl ⟨heq.1, heq.2, h⟩
  · exact Or.inr h

/-- Accepting more only adds to what has been accepted. -/
theorem le_setAcc {acc : V → ℕ → ℕ} {c : V} {t k : ℕ} (h : acc c t ≤ k) (p : V) (T : ℕ) :
    acc p T ≤ setAcc acc c t k p T := by
  unfold setAcc
  split
  · rename_i heq
    rw [heq.1, heq.2]
    exact h
  · exact le_rfl

theorem setAcc_self (acc : V → ℕ → ℕ) (c : V) (t k : ℕ) : setAcc acc c t k c t = k :=
  if_pos ⟨rfl, rfl⟩

/-! ## A new leader -/

/-- Candidate `c` leads in its term and has accepted its own log. -/
def elect (s : View α V) (c : V) : View α V :=
  { s with
    running := fun p => s.running p ∧ p ≠ c
    archive := s.archive.elect (s.term c) c (s.log c)
    acc := setAcc s.acc c (s.term c) ((s.log c).length - 1) }

/-- No entry has the term of a leader to be. -/
theorem Ok.entry_of_elect (h : s.Ok term root base members) {c : V} (hc : c ∈ members)
    (hbase : base < s.term c) (hnone : s.archive.led (s.term c) = none) {T i : ℕ} {e : α}
    (he : (s.elect c).Entry term T i e) : s.Entry term T i e := by
  obtain ⟨hpos, hT, c', L, hled, hi⟩ := he
  rcases Archive.of_elect_led hled with ⟨rfl, rfl, rfl⟩ | hold
  · rcases h.archive.origin _ i e (h.known c' hc) hi with hle | ⟨c'', L'', hled'', -⟩
    · omega
    · rw [hT, hnone] at hled''
      cases hled''
  · exact ⟨hpos, hT, c', L, hold, hi⟩

theorem Ok.elect (h : s.Ok term root base members) {c : V} (hc : c ∈ members)
    (hbase : base < s.term c) (hrunning : s.running c)
    (hnone : s.archive.led (s.term c) = none) (hwon : s.book.Won members (s.term c) c) :
    (s.elect c).Ok term root base members := by
  have hle := Archive.le_elect hnone c (s.log c)
  have hentry : ∀ {T i e}, (s.elect c).Entry term T i e → s.Entry term T i e :=
    fun he => h.entry_of_elect hc hbase hnone he
  -- what `c` has accepted in its new term is of no use to entries of other terms
  have hacc : ∀ {p T i e}, s.Entry term T i e → i ≤ (s.elect c).acc p T → i ≤ s.acc p T := by
    intro p T i e he hi
    rcases setAcc_cases hi with ⟨-, rfl, -⟩ | hi
    · obtain ⟨-, -, c', L, hled, -⟩ := he
      rw [hnone] at hled
      cases hled
    · exact hi
  have hanti : ∀ {T i}, (s.elect c).Choosable members T i → s.Choosable members T i := by
    intro T i hch
    refine hch.anti (fun _ _ => le_rfl) fun p _ hi => ?_
    rcases setAcc_cases hi with ⟨rfl, rfl, -⟩ | hi
    · exact Or.inr le_rfl
    · exact Or.inl hi
  constructor
  case archive => exact h.archive.elect hnone (h.known c hc)
  case known => exact h.known
  case won =>
    intro T c' L hL
    rcases Archive.of_elect_led hL with ⟨rfl, rfl, -⟩ | hold
    · exact hwon
    · exact h.won T c' L hold
  case voted => exact h.voted
  case ran => exact h.ran
  case bound =>
    intro p hp T hpos
    rcases setAcc_cases (show (s.elect c).acc p T ≤ (s.elect c).acc p T from le_rfl) with
      ⟨rfl, rfl, hk⟩ | hk
    · refine ⟨le_rfl, p, s.log p, Function.update_self _ _ _, ?_⟩
      omega
    · obtain ⟨hT, c', L, hled, hlt⟩ := h.bound p hp T (lt_of_lt_of_le hpos hk)
      obtain ⟨L', hled', hpre⟩ := hle.led T c' L hled
      exact ⟨hT, c', L', hled', lt_of_le_of_lt hk (lt_of_lt_of_le hlt hpre.length_le)⟩
  case holds =>
    exact fun p hp T i e he hi hch =>
      h.holds p hp T i e (hentry he) (hacc (hentry he) hi) (hanti hch)
  case complete =>
    intro T T' i e c' L he hlt hL hch
    rcases Archive.of_elect_led hL with ⟨rfl, rfl, rfl⟩ | hold
    · -- the new leader: one of its voters has accepted the entry
      obtain ⟨v, hv, hbook, hi⟩ := h.choosable_voter hlt (hanti hch) hwon
      exact h.backed c' hc hrunning hnone v hv hbook T i e (hentry he) hlt hi (hanti hch)
    · exact h.complete T T' i e c' L (hentry he) hlt hold (hanti hch)
  case backed =>
    intro c' hc' hrun hnone' v hv hbook T i e he hlt hi hch
    have hold : s.archive.led (s.term c') = none := hle.led_none hnone'
    exact h.backed c' hc' hrun.1 hold v hv hbook T i e (hentry he) hlt
      (hacc (hentry he) hi) (hanti hch)

/-! ## A leader's new entry -/

/-- Leader `c` appends `e` and accepts it at once. -/
def extend (s : View α V) (c : V) (e : α) : View α V :=
  { s with
    log := Function.update s.log c (s.log c ++ [e])
    archive := s.archive.extend (s.term c) c (s.log c) e
    acc := setAcc s.acc c (s.term c) (s.log c).length }

/-- A log that only grows keeps its entries. -/
theorem extend_log (s : View α V) (c : V) (e : α) (p : V) : s.log p <+: (s.extend c e).log p := by
  change s.log p <+: Function.update s.log c (s.log c ++ [e]) p
  by_cases hp : p = c
  · subst hp
    rw [Function.update_self]
    exact List.prefix_append _ _
  · have hother := Function.update_of_ne hp (s.log c ++ [e]) s.log
    exact hother.symm ▸ List.prefix_rfl

/-- The only new entry is the one appended. -/
theorem entry_of_extend {c : V} {e : α} {T i : ℕ} {b : α} (h : (s.extend c e).Entry term T i b)
    (hled : s.archive.led (s.term c) = some (c, s.log c)) :
    s.Entry term T i b ∨ (T = s.term c ∧ i = (s.log c).length ∧ b = e) := by
  obtain ⟨hpos, hT, d, L, hL, hi⟩ := h
  rcases Archive.of_extend_led hL with ⟨rfl, rfl, rfl⟩ | hold
  · rcases lt_or_ge i (s.log d).length with hlt | hge
    · rw [List.getElem?_append_left hlt] at hi
      exact Or.inl ⟨hpos, hT, d, s.log d, hled, hi⟩
    · have hlen := (List.getElem?_eq_some_iff.mp hi).1
      rw [List.length_append, List.length_singleton] at hlen
      obtain rfl : i = (s.log d).length := by omega
      exact Or.inr ⟨rfl, rfl, by simpa using hi.symm⟩
  · exact Or.inl ⟨hpos, hT, d, L, hold, hi⟩

/-- A leader that still appends in its term has been replaced by nobody: a new
entry is not choosable once a later term has a leader. -/
theorem Ok.not_choosable_extend (h : s.Ok term root base members) {c d : V} {e : α} {T' : ℕ}
    {L' : List α} (hlog : 0 < (s.log c).length)
    (hled : s.archive.led (s.term c) = some (c, s.log c)) (hlt : s.term c < T')
    (hled' : s.archive.led T' = some (d, L')) :
    ¬ (s.extend c e).Choosable members (s.term c) (s.log c).length := by
  intro hch
  obtain ⟨v, hv, hor, hbook⟩ := Majority.inter hch (h.won T' d L' hled')
  have hvoted := h.voted v hv T' d hbook
  rcases hor with hacc | hterm
  · rcases setAcc_cases hacc with ⟨rfl, -, -⟩ | hacc
    · omega
    · exact absurd (h.acc_lt hv hlog hled) (not_lt.mpr hacc)
  · exact absurd (hvoted.trans hterm) (not_le.mpr hlt)

theorem Ok.extend (h : s.Ok term root base members) {c : V} {e : α} (hc : c ∈ members)
    (hbase : base < s.term c) (hled : s.archive.led (s.term c) = some (c, s.log c))
    (he : term e = s.term c) : (s.extend c e).Ok term root base members := by
  have hle := Archive.le_extend hled e
  have hpos : 0 < (s.log c).length :=
    (List.getElem?_eq_some_iff.mp (h.archive.root _ (h.known c hc))).1
  have hanti : ∀ {T i}, (s.extend c e).Choosable members T i → s.Choosable members T i := by
    intro T i hch
    refine hch.anti (fun _ _ => le_rfl) fun p _ hi => ?_
    rcases setAcc_cases hi with ⟨rfl, rfl, -⟩ | hi
    · exact Or.inr le_rfl
    · exact Or.inl hi
  -- an entry of the leader before this step is in its log, so it has accepted it for good
  have hheld : ∀ p ∈ members, ∀ {T i b}, s.Entry term T i b → i ≤ (s.extend c e).acc p T →
      s.Choosable members T i → (s.log p)[i]? = some b := by
    intro p hp T i b hb hi hch
    rcases setAcc_cases hi with ⟨rfl, rfl, -⟩ | hi
    · obtain ⟨-, -, c', L, hL, hget⟩ := hb
      rw [hled] at hL
      obtain ⟨-, rfl⟩ := Prod.mk.inj (Option.some.inj hL)
      exact hget
    · exact h.holds p hp T i b hb hi hch
  constructor
  case archive => exact h.archive.extend hbase hled he
  case known =>
    intro p hp
    change s.archive.known (Function.update s.log c (s.log c ++ [e]) p) ∨
      Function.update s.log c (s.log c ++ [e]) p = s.log c ++ [e]
    by_cases hpc : p = c
    · subst hpc
      exact Or.inr (Function.update_self _ _ _)
    · rw [Function.update_of_ne hpc]
      exact Or.inl (h.known p hp)
  case won =>
    intro T d L hL
    rcases Archive.of_extend_led hL with ⟨rfl, rfl, -⟩ | hold
    · exact h.won _ _ _ hled
    · exact h.won T d L hold
  case voted => exact h.voted
  case ran => exact h.ran
  case bound =>
    intro p hp T hacc
    rcases setAcc_cases (show (s.extend c e).acc p T ≤ (s.extend c e).acc p T from le_rfl) with
      ⟨rfl, rfl, hk⟩ | hk
    · refine ⟨le_rfl, p, s.log p ++ [e], Function.update_self _ _ _, ?_⟩
      rw [List.length_append, List.length_singleton]
      omega
    · obtain ⟨hT, d, L, hL, hlt⟩ := h.bound p hp T (lt_of_lt_of_le hacc hk)
      obtain ⟨L', hL', hpre⟩ := hle.led T d L hL
      exact ⟨hT, d, L', hL', lt_of_le_of_lt hk (lt_of_lt_of_le hlt hpre.length_le)⟩
  case holds =>
    intro p hp T i b hb hi hch
    rcases entry_of_extend hb hled with hold | ⟨rfl, rfl, rfl⟩
    · exact getElem?_of_prefix (extend_log s c e p) (hheld p hp hold hi (hanti hch))
    · -- only the leader itself has accepted the new entry
      rcases setAcc_cases hi with ⟨rfl, -, -⟩ | hi
      · change (Function.update s.log p (s.log p ++ [b]) p)[(s.log p).length]? = some b
        rw [Function.update_self, List.getElem?_concat_length]
      · exact absurd (h.acc_lt hp hpos hled) (not_lt.mpr hi)
  case complete =>
    intro T T' i b d L hb hlt hL hch
    rcases Archive.of_extend_led hL with ⟨rfl, rfl, rfl⟩ | hold
    · -- the leader that appends had the older entries already
      rcases entry_of_extend hb hled with hentry | ⟨rfl, -, -⟩
      · exact getElem?_of_prefix (List.prefix_append _ _)
          (h.complete T _ i b d _ hentry hlt hled (hanti hch))
      · exact absurd hlt (lt_irrefl _)
    · rcases entry_of_extend hb hled with hentry | ⟨rfl, rfl, rfl⟩
      · exact h.complete T T' i b d L hentry hlt hold (hanti hch)
      · exact absurd hch (h.not_choosable_extend hpos hled hlt hold)
  case backed =>
    intro d hd hrun hnone v hv hbook T i b hb hlt hi hch
    have hold : s.archive.led (s.term d) = none := hle.led_none hnone
    have hvoted := h.voted v hv _ d hbook
    -- the voter has left every term in which the new entry could have been accepted
    have hacc : i ≤ s.acc v T := by
      rcases setAcc_cases hi with ⟨rfl, rfl, -⟩ | hi
      · exact absurd (show s.term v < s.term d from hlt) (not_lt.mpr hvoted)
      · exact hi
    rcases entry_of_extend hb hled with hentry | ⟨rfl, rfl, rfl⟩
    · exact getElem?_of_prefix (extend_log s c e d)
        (h.backed d hd hrun hold v hv hbook T i b hentry hlt hacc (hanti hch))
    · exact absurd (h.acc_lt hv hpos hled) (not_lt.mpr hacc)

/-! ## A follower accepts a request -/

/-- `p` merges `es` behind `prev` into its log and has then accepted its
leader's log up to their end. -/
def accept (term : α → ℕ) (s : View α V) (p : V) (prev : ℕ) (es : List α) : View α V :=
  { s with
    log := Function.update s.log p (splice term (s.log p) (prev + 1) es)
    acc := setAcc s.acc p (s.term p) (max (s.acc p (s.term p)) (prev + es.length)) }

/-- Whatever choosable entry the follower had accepted, or accepts with this
request, is in its merged log. -/
theorem Ok.accept_getElem? (h : s.Ok term root base members) {p c : V} {prev prevTerm : ℕ}
    {es M : List α} (hp : p ∈ members)
    (hM : Archive.CarriedLog term s.archive (s.term p) c prev prevTerm es M)
    (hprev : prev < (s.log p).length)
    (hcheck : prev = 0 ∨ (s.log p)[prev]?.map term = some prevTerm) {T i : ℕ} {e : α}
    (he : s.Entry term T i e) (hi : i ≤ (s.accept term p prev es).acc p T)
    (hch : s.Choosable members T i) :
    (splice term (s.log p) (prev + 1) es)[i]? = some e := by
  have hlen := hM.length_eq
  obtain ⟨L, hled, hpre⟩ := hM.led
  have hsplit : i ≤ s.acc p T ∨ (T = s.term p ∧ i < M.length) := by
    rcases setAcc_cases hi with ⟨-, rfl, hmax⟩ | hold
    · rcases le_max_iff.mp hmax with hold | hnew
      · exact Or.inl hold
      · exact Or.inr ⟨rfl, by omega⟩
    · exact Or.inl hold
  have hT : T ≤ s.term p := by
    rcases hsplit with hold | ⟨rfl, -⟩
    · exact (h.bound p hp T (lt_of_lt_of_le he.1 hold)).1
    · exact le_rfl
  -- the leader of the follower's term has the entry, in whatever term it was accepted
  have hleader : L[i]? = some e := by
    rcases hT.lt_or_eq with hlt | rfl
    · exact h.complete T _ i e c L he hlt hled hch
    · obtain ⟨-, -, c', L', hled', hget⟩ := he
      rw [hled] at hled'
      obtain ⟨-, rfl⟩ := Prod.mk.inj (Option.some.inj hled')
      exact hget
  have hcarried : i < M.length → M[i]? = some e := by
    intro hlt
    obtain ⟨R, rfl⟩ := hpre
    rwa [List.getElem?_append_left hlt] at hleader
  rcases h.archive.splice_cases hM (h.known p hp) hprev hcheck with ⟨hpreM, hs⟩ | ⟨hnot, hs⟩
  · -- the log stays
    rw [hs]
    rcases hsplit with hold | ⟨-, hlt⟩
    · exact h.holds p hp T i e he hold hch
    · exact getElem?_of_prefix hpreM (hcarried hlt)
  · -- the log becomes the carried one, which cannot end before an entry the follower holds
    rw [hs]
    refine hcarried (by_contra fun hge => hnot ?_)
    rcases hsplit with hold | ⟨-, hlt⟩
    · have hmatch := h.archive.matching _ _ (h.known p hp) (h.archive.led_known _ _ _ hled)
      exact hmatch.prefix_of_getElem? hpre (h.holds p hp T i e he hold hch) hleader (not_lt.mp hge)
    · exact absurd hlt hge

theorem Ok.accept (h : s.Ok term root base members) {p c : V} {prev prevTerm : ℕ}
    {es M : List α} (hp : p ∈ members)
    (hM : Archive.CarriedLog term s.archive (s.term p) c prev prevTerm es M)
    (hprev : prev < (s.log p).length)
    (hcheck : prev = 0 ∨ (s.log p)[prev]?.map term = some prevTerm) :
    (s.accept term p prev es).Ok term root base members := by
  have hlen := hM.length_eq
  obtain ⟨L, hled, hpre⟩ := hM.led
  have hanti : ∀ {T i}, (s.accept term p prev es).Choosable members T i →
      s.Choosable members T i := by
    intro T i hch
    refine hch.anti (fun _ _ => le_rfl) fun q _ hi => ?_
    rcases setAcc_cases hi with ⟨rfl, rfl, -⟩ | hi
    · exact Or.inr le_rfl
    · exact Or.inl hi
  constructor
  case archive => exact h.archive
  case known =>
    intro q hq
    change s.archive.known (Function.update s.log p _ q)
    by_cases hqp : q = p
    · subst hqp
      rw [Function.update_self]
      rcases h.archive.splice_cases hM (h.known q hq) hprev hcheck with ⟨-, hs⟩ | ⟨-, hs⟩
      · rw [hs]
        exact h.known q hq
      · rw [hs]
        exact hM.known
    · rw [Function.update_of_ne hqp]
      exact h.known q hq
  case won => exact h.won
  case voted => exact h.voted
  case ran => exact h.ran
  case bound =>
    intro q hq T hpos
    rcases setAcc_cases (show (s.accept term p prev es).acc q T ≤ _ from le_rfl) with
      ⟨rfl, rfl, hk⟩ | hk
    · have hLpos : 0 < L.length := lt_of_le_of_lt (Nat.zero_le prev)
        (lt_of_lt_of_le hM.prev_lt hpre.length_le)
      have hacc := h.acc_lt hq hLpos hled
      have hML := hpre.length_le
      refine ⟨le_rfl, c, L, hled, lt_of_le_of_lt hk (max_lt hacc (by omega))⟩
    · obtain ⟨hT, d, L', hL', hlt⟩ := h.bound q hq T (lt_of_lt_of_le hpos hk)
      exact ⟨hT, d, L', hL', lt_of_le_of_lt hk hlt⟩
  case holds =>
    intro q hq T i e he hi hch
    change (Function.update s.log p _ q)[i]? = some e
    by_cases hqp : q = p
    · subst hqp
      rw [Function.update_self]
      exact h.accept_getElem? hq hM hprev hcheck he hi (hanti hch)
    · rw [Function.update_of_ne hqp]
      rcases setAcc_cases hi with ⟨hself, -, -⟩ | hi
      · exact absurd hself hqp
      · exact h.holds q hq T i e he hi (hanti hch)
  case complete =>
    exact fun T T' i e d L' he hlt hL' hch => h.complete T T' i e d L' he hlt hL' (hanti hch)
  case backed =>
    intro d hd hrun hnone v hv hbook T i e he hlt hi hch
    -- the term of the member that accepts has a leader, so the candidate is another one
    have hdp : d ≠ p := by
      rintro rfl
      exact absurd (hled.symm.trans hnone) (by simp)
    change (Function.update s.log p _ d)[i]? = some e
    rw [Function.update_of_ne hdp]
    have hacc : i ≤ s.acc v T := by
      rcases setAcc_cases hi with ⟨rfl, rfl, -⟩ | hi
      · exact absurd (show s.term v < s.term d from hlt) (not_lt.mpr (h.voted v hv _ d hbook))
      · exact hi
    exact h.backed d hd hrun hnone v hv hbook T i e he hlt hacc (hanti hch)

end moves

end View
