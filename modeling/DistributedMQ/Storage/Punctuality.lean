import DistributedMQ.Storage.TimeWheel
import Mathlib.Tactic.Ring

/-!
# Ticks on time (`storage/timewheel.go` lines 64–108)

The time wheel with a clock that shows whole milliseconds, ticks at the multiples of `tickMs`, and
`AddMessage` between the ticks only. A message lies in the bucket of a tick before it is due: this
may be an early one, if the delay is longer than a rotation, and the tick then puts it back.

- `ahead_bucketIndex`: the bucket that `AddMessage` chooses is that of a tick that is not too late.
- `PunctualInv`: so is every bucket with a message in it.
- `wheel_punctual`: nothing is dispatched early or twice, and after a tick nothing is overdue.
-/

namespace DistributedMQ.Storage

open Machine Conservation

/-- The time of a tick; the wheel was made at the time of number 0. -/
def tickTime (p : WheelParams) (start : ℤ) (k : ℕ) : ℤ := (start + k) * p.tickMs * 10 ^ 6

/-- A whole number of milliseconds. -/
def Whole (time : ℤ) : Prop := 10 ^ 6 ∣ time

instance (time : ℤ) : Decidable (Whole time) := inferInstanceAs (Decidable (_ ∣ _))

/-- **Condition.** A tick takes no time, and `AddMessage` is called between the ticks. -/
def WheelProc.OnTime (p : WheelParams) (start : ℤ) (s : WheelProc) (ev : WheelEvent)
    (_ : WheelProc) : Prop :=
  match ev with
  | .addMessage deliveryAt now =>
    s.phase = .idle ∧ tickTime p start s.ticks ≤ now ∧ Whole deliveryAt ∧ Whole now
  | .deliver now₁ now₂ now₃ =>
    now₁ = tickTime p start s.ticks ∧ now₂ = tickTime p start s.ticks ∧
      now₃ = tickTime p start s.ticks
  | _ => True

instance (p : WheelParams) (start : ℤ) (s : WheelProc) (ev : WheelEvent) (t : WheelProc) :
    Decidable (s.OnTime p start ev t) :=
  match ev with
  | .addMessage _ _ => inferInstanceAs (Decidable (_ ∧ _))
  | .deliver _ _ _ => inferInstanceAs (Decidable (_ ∧ _))
  | .startTick | .takeBucket | .endTick | .receive => inferInstanceAs (Decidable True)

/-! ## Delays -/

section

variable {p : WheelParams} {start deliveryAt now : ℤ} {k : ℕ}

theorem whole_tickTime (p : WheelParams) (start : ℤ) (k : ℕ) : Whole (tickTime p start k) :=
  Dvd.intro_left _ rfl

theorem tickTime_mono {i : ℕ} (h : k ≤ i) : tickTime p start k ≤ tickTime p start i := by
  have hle : start + (k : ℤ) ≤ start + i := by omega
  exact Int.mul_le_mul_of_nonneg_right
    (Int.mul_le_mul_of_nonneg_right hle (Int.natCast_nonneg _)) (by norm_num)

/-- What counts as no delay is none. -/
theorem le_of_delayMs (hdelivery : Whole deliveryAt) (hnow : Whole now)
    (h : delayMs deliveryAt now ≤ 0) : deliveryAt ≤ now := by
  by_contra hlt
  obtain ⟨a, rfl⟩ := hdelivery
  obtain ⟨b, rfl⟩ := hnow
  have hab : b + 1 ≤ a := by omega
  have hlong : 10 ^ 6 ≤ duration (10 ^ 6 * a - 10 ^ 6 * b) := by
    unfold duration
    omega
  have hone : (1 : ℤ) ≤ (duration (10 ^ 6 * a - 10 ^ 6 * b)).tdiv (10 ^ 6) := by
    rw [Int.tdiv_eq_ediv_of_nonneg (by omega)]
    exact (Int.le_ediv_iff_mul_le (by norm_num)).mpr (by omega)
  exact absurd h (by rw [delayMs]; omega)

/-- The delay is rounded down. -/
theorem delayMs_mul_le (h : 0 < delayMs deliveryAt now) :
    delayMs deliveryAt now * 10 ^ 6 ≤ deliveryAt - now := by
  have hpos : 0 < duration (deliveryAt - now) := by
    by_contra hle
    have hneg : 0 ≤ (-duration (deliveryAt - now)).tdiv (10 ^ 6) :=
      Int.tdiv_nonneg (by omega) (by norm_num)
    rw [Int.neg_tdiv] at hneg
    rw [delayMs] at h
    omega
  have hle : duration (deliveryAt - now) ≤ deliveryAt - now := by
    unfold duration at hpos ⊢
    omega
  rw [delayMs, Int.tdiv_eq_ediv_of_nonneg hpos.le]
  exact (Int.ediv_mul_le _ (by norm_num)).trans hle

/-- After `k` ticks, the bucket is that of one of the next ticks, and a message with this time is
not due before this tick's predecessor. -/
def Ahead (p : WheelParams) (start : ℤ) (k b : ℕ) (deliveryAt : ℤ) : Prop :=
  ∃ i, k ≤ i ∧ i < k + p.wheelSize ∧ i % p.wheelSize = b ∧ tickTime p start i ≤ deliveryAt

/-- **The bucket that `AddMessage` chooses.** -/
theorem ahead_bucketIndex {tw : TimeWheel} (hindex : tw.currentIndex = k % p.wheelSize)
    (hnow : tickTime p start k ≤ now) (hpos : 0 < delayMs deliveryAt now) :
    Ahead p start k (tw.bucketIndex p deliveryAt now) deliveryAt := by
  -- whole rotations are taken off the number of ticks, which only makes the tick an earlier one
  let q := (delayMs deliveryAt now).toNat / p.tickMs
  have hmod : q % p.wheelSize < p.wheelSize := Nat.mod_lt _ p.wheelSize_pos
  refine ⟨k + q % p.wheelSize, Nat.le_add_right _ _, Nat.add_lt_add_left hmod k, ?_, ?_⟩
  · rw [TimeWheel.bucketIndex, hindex, Nat.add_mod_mod, Nat.mod_add_mod]
  · have hq : ((q % p.wheelSize : ℕ) : ℤ) * p.tickMs ≤ delayMs deliveryAt now := by
      have hle : q % p.wheelSize * p.tickMs ≤ (delayMs deliveryAt now).toNat :=
        (Nat.mul_le_mul_right _ (Nat.mod_le q _)).trans (Nat.div_mul_le_self _ _)
      have hcast : (((delayMs deliveryAt now).toNat : ℕ) : ℤ) = delayMs deliveryAt now :=
        Int.toNat_of_nonneg hpos.le
      rw [← hcast]
      exact_mod_cast hle
    have hdelay := delayMs_mul_le hpos
    have htick : tickTime p start (k + q % p.wheelSize) =
        tickTime p start k + ((q % p.wheelSize : ℕ) : ℤ) * p.tickMs * 10 ^ 6 := by
      unfold tickTime
      push_cast
      ring
    rw [htick]
    linarith

end

/-! ## Runs -/

/-- The wheel has turned with the clock: what was sent was due, and what waits is in a bucket that
comes round in time. -/
structure PunctualInv (p : WheelParams) (start : ℤ) (s : WheelProc) : Prop where
  whole : ∀ deliveryAt ∈ s.deliveries, Whole deliveryAt
  index : s.wheel.currentIndex = s.ticks % p.wheelSize
  due : ∀ x ∈ s.dispatched, s.deliveryAt x.1 ≤ x.2
  /-- The bucket that a tick is about to take is the exception. -/
  ahead : ∀ b, s.phase ≠ .advanced b → ∀ msg ∈ (s.wheel.buckets b).elems,
    Ahead p start s.ticks b (s.deliveryAt msg)

namespace PunctualInv

variable {p : WheelParams} {start : ℤ} {s t : WheelProc} {ev : WheelEvent}

theorem init (p : WheelParams) (start : ℤ) : PunctualInv p start {} where
  whole := fun _ h => absurd h List.not_mem_nil
  index := (Nat.zero_mod _).symm
  due := fun _ h => absurd h List.not_mem_nil
  ahead := fun _ _ _ h => absurd h List.not_mem_nil

theorem whole_deliveryAt (h : PunctualInv p start s) (msg : ℕ) : Whole (s.deliveryAt msg) := by
  rw [WheelProc.deliveryAt, List.getD_eq_getElem?_getD]
  cases hfound : s.deliveries[msg]? with
  | none => exact dvd_zero _
  | some deliveryAt => exact h.whole deliveryAt (List.mem_of_getElem? hfound)

/-- The tick goes on. -/
theorem rephase (h : PunctualInv p start s) (hphase : ∀ b, s.phase ≠ .advanced b)
    (phase : TickPhase) : PunctualInv p start { s with phase } :=
  ⟨h.whole, h.index, h.due, fun b _ msg hmem => h.ahead b (hphase b) msg hmem⟩

/-- A message keeps its time when another one gets a number. -/
theorem deliveryAt_numbered {msg : ℕ} (hmsg : msg < s.deliveries.length) (deliveryAt : ℤ) :
    (s.numbered deliveryAt).deliveryAt msg = s.deliveryAt msg := by
  rw [WheelProc.deliveryAt, WheelProc.deliveryAt, List.getD_eq_getElem?_getD,
    List.getD_eq_getElem?_getD, WheelProc.numbered, List.getElem?_append_left hmsg]

theorem deliveryAt_numbered_self (s : WheelProc) (deliveryAt : ℤ) :
    (s.numbered deliveryAt).deliveryAt s.deliveries.length = deliveryAt := by
  rw [WheelProc.deliveryAt, List.getD_eq_getElem?_getD, WheelProc.numbered,
    List.getElem?_concat_length, Option.getD_some]

theorem numbered (h : PunctualInv p start s) (hinv : WheelInv p s) {deliveryAt : ℤ}
    (hwhole : Whole deliveryAt) : PunctualInv p start (s.numbered deliveryAt) where
  whole := by
    intro deliveryAt' hmem
    rcases List.mem_append.mp hmem with hmem | hmem
    · exact h.whole deliveryAt' hmem
    · obtain rfl := List.mem_singleton.mp hmem
      exact hwhole
  index := h.index
  due := by
    intro x hx
    have hplace : x.1 ∈ s.places p :=
      List.mem_append_right _ (List.mem_append_right _
        (List.mem_append_left _ (List.mem_map_of_mem hx)))
    rw [deliveryAt_numbered (hinv.conserved.mem_iff.mp hplace)]
    exact h.due x hx
  ahead := by
    intro b hphase msg hmem
    obtain ⟨i, hle, hlt, hmod, htime⟩ := h.ahead b hphase msg hmem
    have hb : b < p.wheelSize := hmod ▸ Nat.mod_lt i p.wheelSize_pos
    have hplace : msg ∈ s.places p :=
      List.mem_append_left _ (List.mem_flatMap.mpr ⟨b, List.mem_range.mpr hb, hmem⟩)
    rw [deliveryAt_numbered (hinv.conserved.mem_iff.mp hplace)]
    exact ⟨i, hle, hlt, hmod, htime⟩

/-- A tick begins: the tick of every other bucket is a later one. -/
theorem startTick (h : PunctualInv p start s) (hphase : s.phase = .idle) :
    PunctualInv p start
      { s with
        wheel := { s.wheel with currentIndex := (s.wheel.currentIndex + 1) % p.wheelSize }
        phase := .advanced s.wheel.currentIndex
        ticks := s.ticks + 1 } where
  whole := h.whole
  index := by
    dsimp only
    rw [h.index, Nat.mod_add_mod]
  due := h.due
  ahead := by
    intro b hb msg hmem
    -- the bucket of this very tick has become the exception
    have hne : b ≠ s.ticks % p.wheelSize := by
      rw [← h.index]
      exact fun heq => hb (congrArg _ heq.symm)
    obtain ⟨i, hle, hlt, hmod, htime⟩ := h.ahead b (by simp [hphase]) msg hmem
    have hi : s.ticks ≠ i := by
      rintro rfl
      exact hne hmod.symm
    refine ⟨i, ?_, ?_, hmod, htime⟩
    · exact lt_of_le_of_ne hle hi
    · dsimp only
      omega

/-- A message is dispatched or dropped. -/
theorem sent (h : PunctualInv p start s) {msg : ℕ} {now : ℤ} (hdue : s.deliveryAt msg ≤ now)
    (hsent : s.Sent msg now t) : PunctualInv p start t := by
  cases hsent with
  | dropped => exact ⟨h.whole, h.index, h.due, h.ahead⟩
  | dispatched ch =>
    refine ⟨h.whole, h.index, ?_, h.ahead⟩
    intro x hx
    rcases List.mem_append.mp hx with hx | hx
    · exact h.due x hx
    · obtain rfl := List.mem_singleton.mp hx
      exact hdue

variable [GrowthPolicy]

/-- A message comes into a bucket. -/
theorem stored (h : PunctualInv p start s) {msg index : ℕ}
    (htick : Ahead p start s.ticks index (s.deliveryAt msg)) :
    PunctualInv p start { s with wheel := s.wheel.store index msg } where
  whole := h.whole
  index := h.index
  due := h.due
  ahead := by
    intro b hphase msg' hmem
    dsimp only at hmem
    by_cases hb : b = index
    · subst hb
      rw [TimeWheel.buckets_store_self, GoSlice.elems_append] at hmem
      rcases List.mem_append.mp hmem with hmem | hmem
      · exact h.ahead b hphase msg' hmem
      · obtain rfl := List.mem_singleton.mp hmem
        exact htick
    · rw [TimeWheel.buckets_store_of_ne s.wheel hb] at hmem
      exact h.ahead b hphase msg' hmem

/-- **`AddMessage`** at a time that is not before the last tick. -/
theorem settle (h : PunctualInv p start s) (msg : ℕ) {now : ℤ}
    (hnow : tickTime p start s.ticks ≤ now) (hwhole : Whole now) :
    PunctualInv p start
      (s.settle msg now (s.wheel.addMessage p (s.deliveryAt msg) now msg)) := by
  rcases WheelProc.settle_addMessage p s msg (s.deliveryAt msg) now with
    ⟨hdelay, hsent⟩ | ⟨hpos, heq⟩
  · exact h.sent (le_of_delayMs (h.whole_deliveryAt msg) hwhole hdelay) hsent
  · rw [heq]
    exact h.stored (ahead_bucketIndex h.index hnow hpos)

/-- An iteration at the time of its tick sends nothing early. -/
theorem deliver (h : PunctualInv p start s) (msg : ℕ) :
    PunctualInv p start (s.deliver p msg (tickTime p start s.ticks) (tickTime p start s.ticks)
      (tickTime p start s.ticks)) := by
  rcases WheelProc.deliver_cases p s msg (tickTime p start s.ticks) (tickTime p start s.ticks)
    (tickTime p start s.ticks) with ⟨now, -, hdue, hsent⟩ | ⟨-, -, heq⟩
  · exact h.sent hdue hsent
  · rw [heq]
    exact h.settle msg le_rfl (whole_tickTime p start s.ticks)

/-- The wheel stays on time by every step that is. -/
theorem step (h : PunctualInv p start s) (hinv : WheelInv p s) (hontime : s.OnTime p start ev t)
    (hst : s.step p ev = some t) : PunctualInv p start t := by
  cases WheelProc.stepped_of_step hst with
  | addMessage deliveryAt now =>
    obtain ⟨hphase, hnow, hdelivery, hwhole⟩ := hontime
    have hsettled := (h.numbered hinv hdelivery).settle s.deliveries.length hnow hwhole
    rw [deliveryAt_numbered_self] at hsettled
    exact hsettled
  | startTick hphase => exact h.startTick hphase
  | @takeBucket bucket hphase =>
    refine ⟨h.whole, h.index, h.due, ?_⟩
    intro b _ msg hmem
    dsimp only at hmem
    by_cases hb : b = bucket
    -- the exception is empty now
    · subst hb
      rw [Function.update_self, GoSlice.elems_trunc, List.take_zero] at hmem
      cases hmem
    · rw [Function.update_of_ne hb] at hmem
      refine h.ahead b ?_ msg hmem
      rw [hphase]
      exact fun heq => hb (TickPhase.advanced.inj heq).symm
  | @deliver bucket rest msg l hphase hread now₁ now₂ now₃ =>
    obtain ⟨rfl, rfl, rfl⟩ := hontime
    refine (h.deliver msg).rephase (fun b => ?_) _
    rw [(WheelProc.moved_deliver p s msg _ _ _).frame.2.1, hphase]
    simp
  | endTick hphase hend => exact h.rephase (fun b => by simp [hphase]) .idle
  | receive => exact ⟨h.whole, h.index, h.due, h.ahead⟩

/-- A run on time keeps both the places of the messages and their times. -/
theorem of_run (hrun : Run (WheelProc.step p) (WheelProc.OnTime p start) {} s) :
    WheelInv p s ∧ PunctualInv p start s := by
  refine hrun.invariant (P := fun s => WheelInv p s ∧ PunctualInv p start s)
    ⟨.init p, .init p start⟩ ?_
  rintro s ev t ⟨hinv, h⟩ hontime hst
  have hspares : s.SparesUnread p ev t := by
    cases ev with
    | addMessage deliveryAt now =>
      show s.phase.Spares p s.wheel deliveryAt now
      rw [hontime.1]
      trivial
    | startTick | takeBucket | deliver | endTick | receive => trivial
  exact ⟨hinv.step hspares hst, h.step hinv hontime hst⟩

end PunctualInv

section

variable [GrowthPolicy] {p : WheelParams} {start : ℤ} {s : WheelProc}

/-- **Punctuality.** With ticks on time, no message is dispatched before its time and none more
than once, and after each tick nothing is left in the wheel that should have been delivered before
this tick. -/
theorem wheel_punctual (hrun : Run (WheelProc.step p) (WheelProc.OnTime p start) {} s) :
    (∀ x ∈ s.dispatched, ∃ deliveryAt, s.deliveries[x.1]? = some deliveryAt ∧
        deliveryAt ≤ x.2) ∧
      (s.dispatched.map Prod.fst).Nodup ∧
      (s.phase = .idle → ∀ msg ∈ s.stored p, ∃ deliveryAt,
        s.deliveries[msg]? = some deliveryAt ∧ tickTime p start s.ticks ≤ deliveryAt) := by
  obtain ⟨hinv, h⟩ := PunctualInv.of_run hrun
  have htime : ∀ msg ∈ s.places p, s.deliveries[msg]? = some (s.deliveryAt msg) := by
    intro msg hmem
    have hlt := hinv.conserved.mem_iff.mp hmem
    rw [WheelProc.deliveryAt, List.getD_eq_getElem?_getD, List.getElem?_eq_getElem hlt,
      Option.getD_some]
  have hgone : ∀ {msg}, msg ∈ s.dispatched.map Prod.fst → msg ∈ s.places p := fun hmem =>
    List.mem_append_right _ (List.mem_append_right _ (List.mem_append_left _ hmem))
  refine ⟨fun x hx => ?_, ?_, fun hphase msg hmem => ?_⟩
  · exact ⟨_, htime x.1 (hgone (List.mem_map_of_mem hx)), h.due x hx⟩
  · have hnodup := hinv.conserved.nodup
    rw [WheelProc.places, WheelProc.gone, ← List.append_assoc, ← List.append_assoc] at hnodup
    exact (List.nodup_append.mp (List.nodup_append.mp hnodup).1).2.1
  · obtain ⟨b, -, hb⟩ := List.mem_flatMap.mp hmem
    obtain ⟨i, hle, -, -, hahead⟩ := h.ahead b (by simp [hphase]) msg hb
    exact ⟨_, htime msg (List.mem_append_left _ hmem), (tickTime_mono hle).trans hahead⟩

end

section

open scoped GrowthPolicy

/-- A wheel with two buckets and a tick each millisecond. -/
def twoBuckets : WheelParams := ⟨1, 2, Nat.one_pos, Nat.two_pos⟩

/-- A message for the time 3 is put back by the second tick. -/
theorem wheel_punctual_two :
    ∃ s : WheelProc, s.stored twoBuckets = [0] ∧ s.deliveries[0]? = some (3 * 10 ^ 6) ∧
      tickTime twoBuckets 0 2 ≤ 3 * 10 ^ 6 := by
  obtain ⟨s, hrun, hphase, hstored, hdeliveries, hticks⟩ : ∃ s,
      Run (WheelProc.step twoBuckets) (WheelProc.OnTime twoBuckets 0) {} s ∧ s.phase = .idle ∧
      s.stored twoBuckets = [0] ∧ s.deliveries[0]? = some (3 * 10 ^ 6) ∧ s.ticks = 2 :=
    exists_run_of_execWith
      [.addMessage (3 * 10 ^ 6) 0, .startTick, .takeBucket, .endTick, .startTick, .takeBucket,
        .deliver (2 * 10 ^ 6) (2 * 10 ^ 6) (2 * 10 ^ 6), .endTick]
      (by decide +kernel)
  obtain ⟨deliveryAt, hfound, hle⟩ :=
    (wheel_punctual hrun).2.2 hphase 0 (hstored ▸ List.mem_cons_self)
  obtain rfl := Option.some.inj (hdeliveries.symm.trans hfound)
  exact ⟨s, hstored, hdeliveries, hticks ▸ hle⟩

end

end DistributedMQ.Storage
