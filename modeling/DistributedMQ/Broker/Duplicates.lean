import DistributedMQ.Broker.Idempotent
import DistributedMQ.Lib.History

/-!
# Duplicate suppression (`idempotent/idempotent.go` lines 43–117)

`IdempotentManager` over whole runs: `CheckAndRecord`, `RemoveProducer` and the sweeps of
`cleanupExpired`. `Tracked` keeps notes of the calls that were accepted and of the records
that are gone, in the order in which it happened. The clock readings and the order of the
map are inputs.

- `checkAndRecord_cases`: a call is the first of its producer, or the next one, or changes
  nothing.
- `makeRoom_cases`: the eviction removes a record that was not used for the longest time.
- `DedupInv`: the record of a producer is ahead of every call accepted since it was made.
- `duplicates_suppressed`: as long as its record is not removed a producer's accepted numbers
  increase and are for one partition, and there are never too many records.
-/

namespace DistributedMQ.Broker

open Raft Machine History

namespace IdempotentManager

def removeProducer (im : IdempotentManager) (pid : String) : IdempotentManager :=
  { im with producerState := im.producerState.erase pid }

variable {im im' : IdempotentManager} {order : List (String × ProducerState)} {now : ℕ}
  {pid topicPartition : String} {seq : ℤ}

/-- **Eviction.** There is room, or a record that was not used for the longest time is
removed. -/
theorem makeRoom_cases (hmax : 1 ≤ im.maxProducers)
    (hclock : ∀ p state, im.producerState.lookup p = some state → state.lastActiveTime ≠ 0)
    (horder : im.producerState.Order order) :
    im.makeRoom order = im ∧ (im.producerState.len : ℤ) < im.maxProducers ∨
      ∃ victim state, im.makeRoom order = im.removeProducer victim ∧
        im.producerState.lookup victim = some state ∧
        ∀ p state', im.producerState.lookup p = some state' →
          state.lastActiveTime ≤ state'.lastActiveTime := by
  rw [makeRoom]
  split
  · rename_i hfull
    have hne : order ≠ [] := by
      rintro rfl
      have hlen := horder.length_eq
      rw [List.length_nil] at hlen
      omega
    obtain ⟨⟨victim, state⟩, hmem, heq, hleast⟩ :=
      @Eviction.oldest_spec _ _ ProducerState.lastActiveTime order
        (fun x hx => hclock x.1 x.2 (horder.mem_iff.mp hx)) hne ""
    refine Or.inr ⟨victim, state, ?_, horder.mem_iff.mp hmem, fun p state' hp => ?_⟩
    · rw [oldest, heq]
      rfl
    · exact hleast (p, state') (horder.mem_iff.mpr hp)
  · rename_i hroom
    exact Or.inl ⟨rfl, not_le.mp hroom⟩

/-- What a call of `CheckAndRecord` can be. -/
inductive Check (im : IdempotentManager) (order : List (String × ProducerState)) (now : ℕ)
    (pid : String) (seq : ℤ) (topicPartition : String) :
    IdempotentManager → Except String Bool → Prop where
  | first (hnone : im.producerState.lookup pid = none) :
      Check im order now pid seq topicPartition
        { im.makeRoom order with
          producerState := (im.makeRoom order).producerState.insert pid
            { lastSequenceNumber := seq, lastActiveTime := now, topicPartition } } (.ok true)
  | next (state : ProducerState) (hstate : im.producerState.lookup pid = some state)
      (htp : state.topicPartition = topicPartition) (hlt : state.lastSequenceNumber < seq) :
      Check im order now pid seq topicPartition
        { im with
          producerState := im.producerState.insert pid
            { state with lastSequenceNumber := seq, lastActiveTime := now } } (.ok true)
  | rejected (res : Except String Bool) (hres : res ≠ .ok true) :
      Check im order now pid seq topicPartition im res

theorem checkAndRecord_cases (im : IdempotentManager) (order : List (String × ProducerState))
    (now : ℕ) (pid : String) (seq : ℤ) (topicPartition : String) :
    Check im order now pid seq topicPartition
      (im.checkAndRecord order now pid seq topicPartition).1
      (im.checkAndRecord order now pid seq topicPartition).2 := by
  unfold checkAndRecord
  cases hpid : im.producerState.lookup pid with
  | none => exact .first hpid
  | some state =>
    by_cases htp : state.topicPartition = topicPartition
    · dsimp only
      rw [if_neg (not_not.mpr htp)]
      split_ifs with hlt heq
      · exact .rejected _ (by simp)
      · exact .rejected _ (by simp)
      · exact .next state hpid htp (lt_of_le_of_ne (not_lt.mp hlt) (Ne.symm heq))
    · dsimp only
      rw [if_pos htp]
      exact .rejected _ (by simp)

theorem lookup_removeProducer {p : String} {state : ProducerState}
    (h : (im.removeProducer pid).producerState.lookup p = some state) :
    im.producerState.lookup p = some state := by
  rw [removeProducer, GoMap.lookup_erase_eq] at h
  split at h
  · cases h
  · exact h

theorem maxProducers_makeRoom : (im.makeRoom order).maxProducers = im.maxProducers := by
  rw [makeRoom]
  split <;> rfl

theorem len_makeRoom_lt (hmax : 1 ≤ im.maxProducers)
    (hclock : ∀ p state, im.producerState.lookup p = some state → state.lastActiveTime ≠ 0)
    (horder : im.producerState.Order order) (hsize : (im.producerState.len : ℤ) ≤ im.maxProducers) :
    ((im.makeRoom order).producerState.len : ℤ) < im.maxProducers := by
  rcases makeRoom_cases hmax hclock horder with ⟨heq, hlt⟩ | ⟨victim, state, heq, hvictim, _⟩
  · rwa [heq]
  · have hlen := GoMap.len_erase (GoMap.mem_iff_exists_lookup.mpr ⟨state, hvictim⟩)
    rw [heq]
    change (GoMap.len (im.producerState.erase victim) : ℤ) < im.maxProducers
    omega

/-- **The victim.** A record that a call removes was not used for the longest time. -/
theorem evicted_oldest (hmax : 1 ≤ im.maxProducers)
    (hclock : ∀ p state, im.producerState.lookup p = some state → state.lastActiveTime ≠ 0)
    (horder : im.producerState.Order order) {res : Except String Bool}
    (hcase : im.Check order now pid seq topicPartition im' res)
    {victim : String} {state : ProducerState}
    (hvictim : im.producerState.lookup victim = some state)
    (hgone : im'.producerState.lookup victim = none) :
    ∀ p state', im.producerState.lookup p = some state' →
      state.lastActiveTime ≤ state'.lastActiveTime := by
  cases hcase with
  | first hnone =>
    rw [GoMap.lookup_insert_eq] at hgone
    split at hgone
    · cases hgone
    rcases makeRoom_cases hmax hclock horder with ⟨heq, _⟩ | ⟨v, old, heq, hold, hleast⟩
    · rw [heq, hvictim] at hgone
      cases hgone
    · rw [heq, removeProducer, GoMap.lookup_erase_eq] at hgone
      split at hgone
      · rename_i hv
        subst hv
        obtain rfl := Option.some.inj (hvictim.symm.trans hold)
        exact hleast
      · rw [hvictim] at hgone
        cases hgone
  | next old hold htp hlt =>
    rw [GoMap.lookup_insert_eq] at hgone
    split at hgone
    · cases hgone
    · rw [hvictim] at hgone
      cases hgone
  | rejected =>
    rw [hvictim] at hgone
    cases hgone

end IdempotentManager

/-! ## Runs -/

/-- What is remembered of a run. -/
inductive Note where
  /-- A call returned true. -/
  | accepted (pid : String) (seq : ℤ) (topicPartition : String)
  /-- The record is gone: evicted, expired or removed. -/
  | removed (pid : String)
deriving DecidableEq

structure Tracked where
  im : IdempotentManager
  notes : List Note := []

inductive TrackedEvent where
  | checkAndRecord (order : List (String × ProducerState)) (now : ℕ) (pid : String) (seq : ℤ)
      (topicPartition : String)
  | removeProducer (pid : String)
  | cleanupExpired (now : ℕ)

namespace Tracked

/-- `NewIdempotentManager`. -/
def new (maxProducers expireAfter : ℤ) : Tracked where
  im := { maxProducers, expireAfter }

/-- The records of `im` that `im'` does not have any more. -/
def goneNotes (im im' : IdempotentManager) : List Note :=
  (im.producerState.keys.filter fun pid => pid ∉ im'.producerState.keys).map .removed

/-- The manager becomes `im`. -/
def become (s : Tracked) (im : IdempotentManager) : Tracked where
  im := im
  notes := s.notes ++ goneNotes s.im im

/-- The call returned `res`. -/
def returned (s : Tracked) (pid : String) (seq : ℤ) (topicPartition : String) :
    Except String Bool → Tracked
  | .ok true => { s with notes := s.notes ++ [.accepted pid seq topicPartition] }
  | _ => s

def step (s : Tracked) : TrackedEvent → Option Tracked
  | .checkAndRecord order now pid seq topicPartition =>
    if s.im.producerState.Order order then
      let (im, res) := s.im.checkAndRecord order now pid seq topicPartition
      some ((s.become im).returned pid seq topicPartition res)
    else none
  | .removeProducer pid => some (s.become (s.im.removeProducer pid))
  | .cleanupExpired now => some (s.become (s.im.cleanupExpired now))

/-- The clock does not read the zero time. -/
def ClockSet (_ : Tracked) (ev : TrackedEvent) (_ : Tracked) : Prop :=
  match ev with
  | .checkAndRecord _ now _ _ _ => now ≠ 0
  | _ => True

instance (s : Tracked) (ev : TrackedEvent) (t : Tracked) : Decidable (s.ClockSet ev t) :=
  match ev with
  | .checkAndRecord _ now _ _ _ => inferInstanceAs (Decidable (now ≠ 0))
  | .removeProducer _ | .cleanupExpired _ => inferInstanceAs (Decidable True)

/-- A record that is gone ends the effect of the calls it was made by. -/
def Ends : Note → Note → Prop
  | .accepted pid _ _, .removed pid' => pid = pid'
  | _, _ => False

/-- The numbers of a producer increase, for one partition. -/
def Increases : Note → Note → Prop
  | .accepted pid seq tp, .accepted pid' seq' tp' => pid = pid' → seq < seq' ∧ tp = tp'
  | _, _ => True

structure DedupInv (maxProducers : ℤ) (s : Tracked) : Prop where
  max_eq : s.im.maxProducers = maxProducers
  size : (s.im.producerState.len : ℤ) ≤ maxProducers
  clock : ∀ pid state, s.im.producerState.lookup pid = some state → state.lastActiveTime ≠ 0
  /-- A call that is still in effect is covered by the producer's record. -/
  covered : ∀ pid seq tp, Since Ends s.notes (.accepted pid seq tp) →
    ∃ state, s.im.producerState.lookup pid = some state ∧ state.topicPartition = tp ∧
      seq ≤ state.lastSequenceNumber
  increasing : Unless Ends Increases s.notes

variable {maxProducers expireAfter : ℤ} {s t : Tracked} {im : IdempotentManager}
  {pid tp : String} {seq : ℤ}

theorem step_checkAndRecord {order : List (String × ProducerState)} {now : ℕ}
    (h : s.step (.checkAndRecord order now pid seq tp) = some t) :
    s.im.producerState.Order order ∧
      t = (s.become (s.im.checkAndRecord order now pid seq tp).1).returned pid seq tp
        (s.im.checkAndRecord order now pid seq tp).2 := by
  by_cases horder : s.im.producerState.Order order
  · refine ⟨horder, ?_⟩
    simp only [step, if_pos horder] at h
    exact (Option.some.inj h).symm
  · simp only [step, if_neg horder] at h
    cases h

theorem im_returned {res : Except String Bool} : (s.returned pid seq tp res).im = s.im := by
  unfold returned
  split <;> rfl

theorem returned_of_ne {res : Except String Bool} (h : res ≠ .ok true) :
    s.returned pid seq tp res = s := by
  unfold returned
  split
  · exact absurd rfl h
  · rfl

theorem mem_goneNotes {im im' : IdempotentManager} {x : Note} :
    x ∈ goneNotes im im' ↔
      ∃ pid, x = .removed pid ∧ pid ∈ im.producerState ∧ pid ∉ im'.producerState := by
  rw [goneNotes, List.mem_map]
  constructor
  · rintro ⟨pid, hpid, rfl⟩
    rw [List.mem_filter, decide_eq_true_eq] at hpid
    exact ⟨pid, rfl, AList.mem_keys.mpr hpid.1, fun h => hpid.2 (AList.mem_keys.mp h)⟩
  · rintro ⟨pid, rfl, hin, hout⟩
    refine ⟨pid, List.mem_filter.mpr ⟨AList.mem_keys.mp hin, ?_⟩, rfl⟩
    exact decide_eq_true fun h => hout (AList.mem_keys.mpr h)

/-- After a change a call is still in effect if the producer's record is still there. -/
theorem since_become :
    Since Ends (s.become im).notes (.accepted pid seq tp) ↔
      Since Ends s.notes (.accepted pid seq tp) ∧
        (pid ∈ s.im.producerState → pid ∈ im.producerState) := by
  have hne : ∀ y ∈ goneNotes s.im im, Note.accepted pid seq tp ≠ y := by
    intro y hy heq
    obtain ⟨_, rfl, _⟩ := mem_goneNotes.mp hy
    cases heq
  rw [become, since_append_iff hne]
  refine and_congr_right fun _ => ⟨fun hgone hin => ?_, fun hkept y hy hends => ?_⟩
  · by_contra hout
    exact hgone (.removed pid) (mem_goneNotes.mpr ⟨pid, rfl, hin, hout⟩) rfl
  · obtain ⟨pid', rfl, hin, hout⟩ := mem_goneNotes.mp hy
    obtain rfl : pid = pid' := hends
    exact hout (hkept hin)

theorem unless_become (h : Unless Ends Increases s.notes) :
    Unless Ends Increases (s.become im).notes := by
  refine h.append fun y hy x => ?_
  obtain ⟨_, rfl, _⟩ := mem_goneNotes.mp hy
  cases x <;> trivial

theorem DedupInv.init (hmax : 0 ≤ maxProducers) :
    DedupInv maxProducers (new maxProducers expireAfter) where
  max_eq := rfl
  size := hmax
  clock pid state h := absurd h (by simp [new])
  covered pid seq tp h := absurd h not_since_nil
  increasing := unless_nil

/-- What is still covered after records have changed. -/
theorem DedupInv.covered_become (h : DedupInv maxProducers s)
    (hsince : Since Ends (s.become im).notes (.accepted pid seq tp)) :
    pid ∈ im.producerState ∧ ∃ state, s.im.producerState.lookup pid = some state ∧
      state.topicPartition = tp ∧ seq ≤ state.lastSequenceNumber := by
  obtain ⟨hold, hkept⟩ := since_become.mp hsince
  obtain ⟨state, hstate, hcovers⟩ := h.covered pid seq tp hold
  exact ⟨hkept (GoMap.mem_iff_exists_lookup.mpr ⟨state, hstate⟩), state, hstate, hcovers⟩

/-- Removing records does no harm: their calls are no longer in effect. -/
theorem DedupInv.forget (h : DedupInv maxProducers s) (hmax : im.maxProducers = maxProducers)
    (hlen : im.producerState.len ≤ s.im.producerState.len)
    (hsub : ∀ p state, im.producerState.lookup p = some state →
      s.im.producerState.lookup p = some state) :
    DedupInv maxProducers (s.become im) where
  max_eq := hmax
  size := (Int.ofNat_le.mpr hlen).trans h.size
  clock p state hp := h.clock p state (hsub p state hp)
  covered p seq tp hsince := by
    obtain ⟨hmem, state, hstate, hcovers⟩ := h.covered_become hsince
    obtain ⟨state', hstate'⟩ := GoMap.mem_iff_exists_lookup.mp hmem
    obtain rfl : state' = state := Option.some.inj ((hsub p state' hstate').symm.trans hstate)
    exact ⟨state', hstate', hcovers⟩
  increasing := unless_become h.increasing

/-- **A call is accepted**: the producer's record is replaced by one that is ahead. -/
theorem DedupInv.accept (h : DedupInv maxProducers s) {state : ProducerState}
    (hmax : im.maxProducers = maxProducers)
    (hsize : (im.producerState.len : ℤ) ≤ maxProducers)
    (hother : ∀ p, p ≠ pid → ∀ state, im.producerState.lookup p = some state →
      s.im.producerState.lookup p = some state)
    (hown : im.producerState.lookup pid = some state)
    (hseq : state.lastSequenceNumber = seq) (htp : state.topicPartition = tp)
    (hclock : state.lastActiveTime ≠ 0)
    (hahead : ∀ old, s.im.producerState.lookup pid = some old →
      old.topicPartition = tp ∧ old.lastSequenceNumber < seq) :
    DedupInv maxProducers
      { s.become im with notes := (s.become im).notes ++ [.accepted pid seq tp] } where
  max_eq := hmax
  size := hsize
  clock p state' hp := by
    by_cases heq : p = pid
    · subst heq
      obtain rfl := Option.some.inj (hown.symm.trans hp)
      exact hclock
    · exact h.clock p state' (hother p heq state' hp)
  covered p seq' tp' hsince := by
    rcases since_concat.mp hsince with heq | ⟨hsince, _⟩
    -- the call itself, or one before it
    · cases heq
      exact ⟨state, hown, htp, hseq.ge⟩
    · obtain ⟨hmem, old, hold, htp', hle⟩ := h.covered_become hsince
      by_cases heq : p = pid
      · subst heq
        obtain ⟨htp'', hlt⟩ := hahead old hold
        refine ⟨state, hown, ?_, ?_⟩
        · rw [htp, ← htp', htp'']
        · rw [hseq]
          exact hle.trans hlt.le
      · obtain ⟨state', hstate'⟩ := GoMap.mem_iff_exists_lookup.mp hmem
        obtain rfl : state' = old :=
          Option.some.inj ((hother p heq state' hstate').symm.trans hold)
        exact ⟨state', hstate', htp', hle⟩
  increasing := by
    refine unless_concat.mpr ⟨unless_become h.increasing, fun x hsince => ?_⟩
    cases x with
    | removed => trivial
    | accepted p seq' tp' =>
      rintro rfl
      obtain ⟨_, old, hold, htp', hle⟩ := h.covered_become hsince
      obtain ⟨htp'', hlt⟩ := hahead old hold
      exact ⟨hle.trans_lt hlt, htp'.symm.trans htp''⟩

/-- **A call of `CheckAndRecord`.** -/
theorem DedupInv.check (hmax : 1 ≤ maxProducers) (h : DedupInv maxProducers s)
    {order : List (String × ProducerState)} {now : ℕ} (hnow : now ≠ 0)
    (horder : s.im.producerState.Order order) {res : Except String Bool}
    (hcase : s.im.Check order now pid seq tp im res) :
    DedupInv maxProducers ((s.become im).returned pid seq tp res) := by
  have hmax' : 1 ≤ s.im.maxProducers := by rwa [h.max_eq]
  cases hcase with
  | first hnone =>
    -- making room removes records and adds none
    have hroom : (s.im.makeRoom order).producerState.lookup pid = none :=
      Option.eq_none_iff_forall_ne_some.mpr fun state hstate => by
        rw [IdempotentManager.lookup_makeRoom hstate] at hnone
        cases hnone
    refine h.accept ?_ ?_ (fun p hp state hstate => ?_) (AList.lookup_insert _) rfl rfl hnow
      fun old hold => ?_
    · rw [← h.max_eq]
      exact IdempotentManager.maxProducers_makeRoom
    · rw [← h.max_eq, GoMap.len_insert_of_notMem (AList.lookup_eq_none.mp hroom)]
      exact IdempotentManager.len_makeRoom_lt hmax' h.clock horder (h.max_eq ▸ h.size)
    · exact IdempotentManager.lookup_makeRoom ((AList.lookup_insert_ne hp).symm.trans hstate)
    · rw [hnone] at hold
      cases hold
  | next state hstate htp hlt =>
    have hmem : pid ∈ s.im.producerState := GoMap.mem_iff_exists_lookup.mpr ⟨state, hstate⟩
    refine h.accept h.max_eq ?_ (fun p hp state' hstate' => ?_) (AList.lookup_insert _) rfl htp
      hnow fun old hold => ?_
    · rw [GoMap.len_insert_of_mem hmem]
      exact h.size
    · exact (AList.lookup_insert_ne hp).symm.trans hstate'
    · obtain rfl := Option.some.inj (hstate.symm.trans hold)
      exact ⟨htp, hlt⟩
  | rejected _ hres =>
    rw [returned_of_ne hres]
    exact h.forget h.max_eq le_rfl fun _ _ => id

/-- **Step**: every call and every sweep keeps the invariant. -/
theorem DedupInv.step (hmax : 1 ≤ maxProducers) (h : DedupInv maxProducers s)
    {ev : TrackedEvent} (hclock : s.ClockSet ev t) (hstep : s.step ev = some t) :
    DedupInv maxProducers t := by
  cases ev with
  | checkAndRecord order now pid seq tp =>
    obtain ⟨horder, rfl⟩ := step_checkAndRecord hstep
    exact h.check hmax hclock horder (s.im.checkAndRecord_cases order now pid seq tp)
  | removeProducer pid =>
    cases hstep
    exact h.forget h.max_eq (GoMap.len_erase_le _ _) fun p state =>
      IdempotentManager.lookup_removeProducer
  | cleanupExpired now =>
    cases hstep
    exact h.forget h.max_eq (GoMap.len_filter_le _ _) fun p state =>
      IdempotentManager.lookup_cleanupExpired

/-- In every run whose clock does not read 0 the records cover the calls in effect. -/
theorem DedupInv.of_run (hmax : 1 ≤ maxProducers)
    (hrun : Run Tracked.step ClockSet (new maxProducers expireAfter) s) :
    DedupInv maxProducers s := by
  refine hrun.invariant (DedupInv.init (by omega)) ?_
  exact fun _ _ _ h hclock hstep => h.step hmax hclock hstep

/-- **Duplicate suppression.** As long as its record is not removed a producer's accepted
sequence numbers increase and are for one partition. There are never more than
`maxProducers` records, and a record that a call of `CheckAndRecord` evicts was not used
for the longest time. -/
theorem duplicates_suppressed (hmax : 1 ≤ maxProducers)
    (hrun : Run step ClockSet (new maxProducers expireAfter) s) :
    (∀ before between after pid seq₁ seq₂ tp₁ tp₂,
      s.notes = before ++ .accepted pid seq₁ tp₁ :: (between ++ .accepted pid seq₂ tp₂ :: after) →
      .removed pid ∉ between → seq₁ < seq₂ ∧ tp₁ = tp₂) ∧
    (s.im.producerState.len : ℤ) ≤ maxProducers ∧
    ∀ order now pid seq tp t,
      s.step (.checkAndRecord order now pid seq tp) = some t →
      ∀ victim state, s.im.producerState.lookup victim = some state →
        t.im.producerState.lookup victim = none →
        ∀ p state', s.im.producerState.lookup p = some state' →
          state.lastActiveTime ≤ state'.lastActiveTime := by
  have h := DedupInv.of_run hmax hrun
  have hmax' : 1 ≤ s.im.maxProducers := by rwa [h.max_eq]
  refine ⟨fun before between after pid seq₁ seq₂ tp₁ tp₂ heq hnot => ?_, h.size, ?_⟩
  · refine h.increasing before _ between _ after heq (fun z hz hends => ?_) rfl
    cases z with
    | accepted => exact hends
    | removed pid' =>
      obtain rfl : pid = pid' := hends
      exact hnot hz
  · intro order now pid seq tp t hstep victim state hvictim hgone
    obtain ⟨horder, rfl⟩ := step_checkAndRecord hstep
    rw [im_returned] at hgone
    exact IdempotentManager.evicted_oldest hmax' h.clock horder
      (s.im.checkAndRecord_cases order now pid seq tp) hvictim hgone

/-- Three producers take turns in a table for two; the one that was not heard of for the
longest time may use its numbers again. -/
def turns : List TrackedEvent :=
  [.checkAndRecord [] 10 "a" 7 "t-0", .checkAndRecord [("a", ⟨7, 10, "t-0"⟩)] 20 "b" 1 "t-1",
    .checkAndRecord [("a", ⟨7, 10, "t-0"⟩), ("b", ⟨1, 20, "t-1"⟩)] 30 "b" 2 "t-1",
    .checkAndRecord [("a", ⟨7, 10, "t-0"⟩), ("b", ⟨2, 30, "t-1"⟩)] 40 "c" 1 "t-2",
    .checkAndRecord [("c", ⟨1, 40, "t-2"⟩), ("b", ⟨2, 30, "t-1"⟩)] 50 "a" 7 "t-0"]

theorem duplicates_suppressed_turns :
    ∃ s, Run step ClockSet (new 2 1000) s ∧ (s.im.producerState.len : ℤ) ≤ 2 ∧
      s.notes = [.accepted "a" 7 "t-0", .accepted "b" 1 "t-1", .accepted "b" 2 "t-1",
        .removed "a", .accepted "c" 1 "t-2", .removed "b", .accepted "a" 7 "t-0"] := by
  obtain ⟨s, hrun, hnotes⟩ : ∃ s, Run step ClockSet (new 2 1000) s ∧
      s.notes = [.accepted "a" 7 "t-0", .accepted "b" 1 "t-1", .accepted "b" 2 "t-1",
        .removed "a", .accepted "c" 1 "t-2", .removed "b", .accepted "a" 7 "t-0"] :=
    exists_run_of_execWith turns (by decide +kernel)
  exact ⟨s, hrun, (duplicates_suppressed (by decide) hrun).2.1, hnotes⟩

end Tracked

end DistributedMQ.Broker
