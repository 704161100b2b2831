import DistributedMQ.Lib.Conservation
import DistributedMQ.Lib.Machine
import DistributedMQ.Lib.Slice

/-!
# The time wheel (`storage/timewheel.go`)

Delayed messages lie in the buckets of a wheel. A tick takes what is in the current bucket,
dispatches what is due and puts the rest back. It cuts the bucket to `messages[:0]` before it
goes through the list, so that the list and the bucket share their array from then on, and other
goroutines may call `AddMessage` meanwhile.

Times are in nanoseconds, and every reading of the clock is an input. A message is a pointer: the
wheel reads `DeliveryAt` only, so that a run numbers the messages and keeps these times. The lock
sections of `tick` and the iterations of its loop are one step each.

- `Stepped`: what a step does.
- `WheelInv`: every message is in one place, and what is left of the list is not overwritten.
- `wheel_conserved`: this is so as long as no `AddMessage` from outside writes a slot of the list
  that the tick has not read yet; with such a step a message is in two places.
- `unread_overwritten`: the smallest case.
-/

namespace DistributedMQ.Storage

open Machine Conservation

/-- What `NewTimeWheel` is called with. -/
structure WheelParams where
  tickMs : ℕ
  wheelSize : ℕ
  tickMs_pos : 0 < tickMs
  wheelSize_pos : 0 < wheelSize

/-- The `time.Duration` that `Sub` returns: the nearest one that there is. -/
def duration (d : ℤ) : ℤ := max (-2 ^ 63) (min d (2 ^ 63 - 1))

/-- `deliveryAt.Sub(now).Milliseconds()`. -/
def delayMs (deliveryAt now : ℤ) : ℤ := (duration (deliveryAt - now)).tdiv (10 ^ 6)

structure TimeWheel where
  currentIndex : ℕ := 0
  buckets : ℕ → GoSlice ℕ := fun _ => .ofList []
  dispatchCh : List ℕ := []

/-- What became of a message. -/
inductive Fate where
  | stored
  | dispatched
  | dropped
deriving DecidableEq, Repr

namespace TimeWheel

/-- `dispatchCh` has room for 1000 messages. -/
def dispatchMessage (tw : TimeWheel) (msg : ℕ) : TimeWheel × Fate :=
  if tw.dispatchCh.length < 1000 then
    ({ tw with dispatchCh := tw.dispatchCh ++ [msg] }, .dispatched)
  else (tw, .dropped)

/-- The bucket that `AddMessage` chooses. -/
def bucketIndex (p : WheelParams) (tw : TimeWheel) (deliveryAt now : ℤ) : ℕ :=
  (tw.currentIndex + (delayMs deliveryAt now).toNat / p.tickMs) % p.wheelSize

/-- The message is put into a bucket. -/
def store [GrowthPolicy] (tw : TimeWheel) (index msg : ℕ) : TimeWheel :=
  { tw with buckets := Function.update tw.buckets index ((tw.buckets index).append msg) }

@[simp] theorem buckets_store_self [GrowthPolicy] (tw : TimeWheel) (index msg : ℕ) :
    (tw.store index msg).buckets index = (tw.buckets index).append msg :=
  Function.update_self ..

theorem buckets_store_of_ne [GrowthPolicy] (tw : TimeWheel) {index b : ℕ} (h : b ≠ index)
    (msg : ℕ) : (tw.store index msg).buckets b = tw.buckets b :=
  Function.update_of_ne h ..

def addMessage [GrowthPolicy] (p : WheelParams) (tw : TimeWheel) (deliveryAt now : ℤ)
    (msg : ℕ) : TimeWheel × Fate :=
  if delayMs deliveryAt now ≤ 0 then tw.dispatchMessage msg
  else (tw.store (tw.bucketIndex p deliveryAt now) msg, .stored)

end TimeWheel

/-! ## Runs -/

/-- Where `tick` is. -/
inductive TickPhase where
  | idle
  /-- After the first lock section: the tick has this bucket. -/
  | advanced (bucket : ℕ)
  /-- In the loop: this part of the list is not processed yet. -/
  | delivering (bucket : ℕ) (rest : GoWindow)
deriving DecidableEq

structure WheelProc where
  wheel : TimeWheel := {}
  phase : TickPhase := .idle
  /-- The ticks so far. -/
  ticks : ℕ := 0
  /-- `DeliveryAt` of the messages so far. -/
  deliveries : List ℤ := []
  /-- What has been sent to `dispatchCh`, with the clock reading that decided it. -/
  dispatched : List (ℕ × ℤ) := []
  /-- What the channel had no room for. -/
  dropped : List ℕ := []

inductive WheelEvent where
  /-- A new message, from another goroutine. -/
  | addMessage (deliveryAt now : ℤ)
  | startTick
  | takeBucket
  /-- An iteration of the loop: the two readings of the condition, and the one in
  `AddMessage`. -/
  | deliver (now₁ now₂ now₃ : ℤ)
  | endTick
  /-- Somebody receives from `dispatchCh`. -/
  | receive
deriving DecidableEq

namespace WheelProc

/-- What became of a message is noted. -/
def settle (s : WheelProc) (msg : ℕ) (now : ℤ) : TimeWheel × Fate → WheelProc
  | (wheel, .stored) => { s with wheel }
  | (wheel, .dispatched) => { s with wheel, dispatched := s.dispatched ++ [(msg, now)] }
  | (wheel, .dropped) => { s with wheel, dropped := s.dropped ++ [msg] }

def deliveryAt (s : WheelProc) (msg : ℕ) : ℤ := s.deliveries.getD msg 0

section

variable [GrowthPolicy] (p : WheelParams)

/-- The body of the loop of `tick`. -/
def deliver (s : WheelProc) (msg : ℕ) (now₁ now₂ now₃ : ℤ) : WheelProc :=
  if s.deliveryAt msg < now₁ then s.settle msg now₁ (s.wheel.dispatchMessage msg)
  else if now₂ = s.deliveryAt msg then s.settle msg now₂ (s.wheel.dispatchMessage msg)
  else s.settle msg now₃ (s.wheel.addMessage p (s.deliveryAt msg) now₃ msg)

def step (s : WheelProc) : WheelEvent → Option WheelProc
  | .addMessage deliveryAt now =>
    let msg := s.deliveries.length
    some (({ s with deliveries := s.deliveries ++ [deliveryAt] } : WheelProc).settle msg now
      (s.wheel.addMessage p deliveryAt now msg))
  | .startTick =>
    match s.phase with
    | .idle =>
      some
        { s with
          wheel := { s.wheel with currentIndex := (s.wheel.currentIndex + 1) % p.wheelSize }
          phase := .advanced s.wheel.currentIndex
          ticks := s.ticks + 1 }
    | _ => none
  | .takeBucket =>
    match s.phase with
    | .advanced bucket =>
      let messages := s.wheel.buckets bucket
      some
        { s with
          wheel := { s.wheel with
            buckets := Function.update s.wheel.buckets bucket (messages.trunc 0) }
          phase := .delivering bucket (messages.view 0) }
    | _ => none
  | .deliver now₁ now₂ now₃ =>
    match s.phase with
    | .delivering bucket rest =>
      match (s.wheel.buckets bucket).read rest with
      | msg :: _ =>
        some { s.deliver p msg now₁ now₂ now₃ with phase := .delivering bucket rest.tail }
      | [] => none
    | _ => none
  | .endTick =>
    match s.phase with
    | .delivering _ rest => if rest.len = 0 then some { s with phase := .idle } else none
    | _ => none
  | .receive =>
    match s.wheel.dispatchCh with
    | _ :: ch => some { s with wheel := { s.wheel with dispatchCh := ch } }
    | [] => none

end

/-! The places where a message can be. -/

/-- In the buckets. -/
def stored (p : WheelParams) (s : WheelProc) : List ℕ :=
  (List.range p.wheelSize).flatMap fun b => (s.wheel.buckets b).elems

/-- In the part of the tick's list that is not processed yet. -/
def unread (s : WheelProc) : List ℕ :=
  match s.phase with
  | .delivering bucket rest => (s.wheel.buckets bucket).read rest
  | _ => []

/-- Handed over, or lost because there was no room. -/
def gone (s : WheelProc) : List ℕ := s.dispatched.map Prod.fst ++ s.dropped

def places (p : WheelParams) (s : WheelProc) : List ℕ := s.stored p ++ (s.unread ++ s.gone)

end WheelProc

/-- A message that is added now with this time does not come into a slot of the tick's list that
is not processed yet: it goes elsewhere, or the bucket is still shorter than the part that
is. -/
def TickPhase.Spares (p : WheelParams) (tw : TimeWheel) (deliveryAt now : ℤ) : TickPhase → Prop
  | .delivering bucket rest =>
    rest.len ≠ 0 → 0 < delayMs deliveryAt now → tw.bucketIndex p deliveryAt now = bucket →
      (tw.buckets bucket).len < rest.lo
  | _ => True

instance (p : WheelParams) (tw : TimeWheel) (deliveryAt now : ℤ) :
    ∀ phase : TickPhase, Decidable (phase.Spares p tw deliveryAt now)
  | .delivering _ _ => inferInstanceAs (Decidable (_ → _ → _ → _))
  | .idle | .advanced _ => inferInstanceAs (Decidable True)

namespace WheelProc

/-- **Condition.** An `AddMessage` from outside overwrites nothing that the tick has yet to
read. -/
def SparesUnread (p : WheelParams) (s : WheelProc) (ev : WheelEvent) (_ : WheelProc) : Prop :=
  match ev with
  | .addMessage deliveryAt now => s.phase.Spares p s.wheel deliveryAt now
  | _ => True

instance (p : WheelParams) (s : WheelProc) (ev : WheelEvent) (t : WheelProc) :
    Decidable (s.SparesUnread p ev t) :=
  match ev with
  | .addMessage _ _ => inferInstanceAs (Decidable (TickPhase.Spares _ _ _ _ _))
  | .startTick | .takeBucket | .deliver _ _ _ | .endTick | .receive =>
    inferInstanceAs (Decidable True)

/-! ## What a step does -/

/-- The message is handed over or lost. -/
inductive Sent (s : WheelProc) (msg : ℕ) (now : ℤ) : WheelProc → Prop where
  | dispatched (ch : List ℕ) :
      Sent s msg now
        { s with
          wheel := { s.wheel with dispatchCh := ch }
          dispatched := s.dispatched ++ [(msg, now)] }
  | dropped : Sent s msg now { s with dropped := s.dropped ++ [msg] }

section

variable {p : WheelParams} {s t : WheelProc} {msg : ℕ} {now : ℤ}

theorem settle_dispatchMessage (s : WheelProc) (msg : ℕ) (now : ℤ) :
    s.Sent msg now (s.settle msg now (s.wheel.dispatchMessage msg)) := by
  rw [TimeWheel.dispatchMessage]
  split
  · exact .dispatched _
  · exact .dropped

variable [GrowthPolicy]

/-- `AddMessage` sends what is due and stores the rest in the bucket of its time. -/
theorem settle_addMessage (p : WheelParams) (s : WheelProc) (msg : ℕ) (deliveryAt now : ℤ) :
    (delayMs deliveryAt now ≤ 0 ∧
        s.Sent msg now (s.settle msg now (s.wheel.addMessage p deliveryAt now msg))) ∨
      (0 < delayMs deliveryAt now ∧
        s.settle msg now (s.wheel.addMessage p deliveryAt now msg) =
          { s with wheel := s.wheel.store (s.wheel.bucketIndex p deliveryAt now) msg }) := by
  rw [TimeWheel.addMessage]
  split
  · rename_i hdue
    exact Or.inl ⟨hdue, settle_dispatchMessage s msg now⟩
  · rename_i hlater
    exact Or.inr ⟨not_le.mp hlater, rfl⟩

/-- An iteration sends the message at a reading at which it is due, or gives it to `AddMessage`
once more. -/
theorem deliver_cases (p : WheelParams) (s : WheelProc) (msg : ℕ) (now₁ now₂ now₃ : ℤ) :
    (∃ now ∈ [now₁, now₂], s.deliveryAt msg ≤ now ∧
        s.Sent msg now (s.deliver p msg now₁ now₂ now₃)) ∨
      (now₁ ≤ s.deliveryAt msg ∧ now₂ ≠ s.deliveryAt msg ∧
        s.deliver p msg now₁ now₂ now₃ =
          s.settle msg now₃ (s.wheel.addMessage p (s.deliveryAt msg) now₃ msg)) := by
  rw [deliver]
  split
  · rename_i hafter
    exact Or.inl ⟨now₁, by simp, hafter.le, settle_dispatchMessage s msg now₁⟩
  rename_i hbefore
  split
  · rename_i hequal
    exact Or.inl ⟨now₂, by simp, hequal.ge, settle_dispatchMessage s msg now₂⟩
  · rename_i hne
    exact Or.inr ⟨not_lt.mp hbefore, hne, rfl⟩

/-- The state before the message of an `AddMessage` from outside has its place. -/
def numbered (s : WheelProc) (deliveryAt : ℤ) : WheelProc :=
  { s with deliveries := s.deliveries ++ [deliveryAt] }

/-- What each event does when it is enabled. -/
inductive Stepped (p : WheelParams) (s : WheelProc) : WheelEvent → WheelProc → Prop where
  | addMessage (deliveryAt now : ℤ) :
      Stepped p s (.addMessage deliveryAt now)
        ((s.numbered deliveryAt).settle s.deliveries.length now
          ((s.numbered deliveryAt).wheel.addMessage p deliveryAt now s.deliveries.length))
  | startTick (hphase : s.phase = .idle) :
      Stepped p s .startTick
        { s with
          wheel := { s.wheel with currentIndex := (s.wheel.currentIndex + 1) % p.wheelSize }
          phase := .advanced s.wheel.currentIndex
          ticks := s.ticks + 1 }
  | takeBucket {bucket : ℕ} (hphase : s.phase = .advanced bucket) :
      Stepped p s .takeBucket
        { s with
          wheel := { s.wheel with
            buckets := Function.update s.wheel.buckets bucket
              ((s.wheel.buckets bucket).trunc 0) }
          phase := .delivering bucket ((s.wheel.buckets bucket).view 0) }
  | deliver {bucket : ℕ} {rest : GoWindow} {msg : ℕ} {l : List ℕ}
      (hphase : s.phase = .delivering bucket rest)
      (hread : (s.wheel.buckets bucket).read rest = msg :: l) (now₁ now₂ now₃ : ℤ) :
      Stepped p s (.deliver now₁ now₂ now₃)
        { s.deliver p msg now₁ now₂ now₃ with phase := .delivering bucket rest.tail }
  | endTick {bucket : ℕ} {rest : GoWindow} (hphase : s.phase = .delivering bucket rest)
      (hend : rest.len = 0) : Stepped p s .endTick { s with phase := .idle }
  | receive (ch : List ℕ) :
      Stepped p s .receive { s with wheel := { s.wheel with dispatchCh := ch } }

theorem stepped_of_step {ev : WheelEvent} (hst : s.step p ev = some t) : Stepped p s ev t := by
  cases ev with
  | addMessage deliveryAt now =>
    cases hst
    exact .addMessage deliveryAt now
  | startTick =>
    rw [step] at hst
    split at hst
    case h_2 => cases hst
    rename_i hphase
    cases hst
    exact .startTick hphase
  | takeBucket =>
    rw [step] at hst
    split at hst
    case h_2 => cases hst
    rename_i bucket hphase
    cases hst
    exact .takeBucket hphase
  | deliver now₁ now₂ now₃ =>
    rw [step] at hst
    split at hst
    case h_2 => cases hst
    rename_i bucket rest hphase
    split at hst
    case h_2 => cases hst
    rename_i msg l hread
    cases hst
    exact .deliver hphase hread now₁ now₂ now₃
  | endTick =>
    rw [step] at hst
    split at hst
    case h_2 => cases hst
    rename_i bucket rest hphase
    split at hst
    case isFalse => cases hst
    rename_i hend
    cases hst
    exact .endTick hphase hend
  | receive =>
    rw [step] at hst
    split at hst
    case h_2 => cases hst
    cases hst
    exact .receive _

/-- The message comes to one of its places. -/
inductive Moved (p : WheelParams) (s : WheelProc) (msg : ℕ) : WheelProc → Prop where
  | sent {now : ℤ} {t : WheelProc} (h : s.Sent msg now t) : Moved p s msg t
  | stored {index : ℕ} (hindex : index < p.wheelSize) :
      Moved p s msg { s with wheel := s.wheel.store index msg }

theorem moved_addMessage (p : WheelParams) (s : WheelProc) (msg : ℕ) (deliveryAt now : ℤ) :
    s.Moved p msg (s.settle msg now (s.wheel.addMessage p deliveryAt now msg)) := by
  rcases settle_addMessage p s msg deliveryAt now with ⟨-, hsent⟩ | ⟨-, heq⟩
  · exact .sent hsent
  · rw [heq]
    exact .stored (Nat.mod_lt _ p.wheelSize_pos)

theorem moved_deliver (p : WheelParams) (s : WheelProc) (msg : ℕ) (now₁ now₂ now₃ : ℤ) :
    s.Moved p msg (s.deliver p msg now₁ now₂ now₃) := by
  rcases deliver_cases p s msg now₁ now₂ now₃ with ⟨now, -, -, hsent⟩ | ⟨-, -, heq⟩
  · exact .sent hsent
  · rw [heq]
    exact moved_addMessage p s msg _ now₃

/-- **One place more**, whatever else there is. -/
theorem Moved.perm (h : s.Moved p msg t) (others : List ℕ) :
    (t.stored p ++ (others ++ t.gone)).Perm (msg :: (s.stored p ++ (others ++ s.gone))) := by
  have hgone : ∀ {gone' : List ℕ}, gone'.Perm (msg :: s.gone) →
      (s.stored p ++ (others ++ gone')).Perm (msg :: (s.stored p ++ (others ++ s.gone))) := by
    intro gone' hperm
    rw [← List.append_assoc, ← List.append_assoc]
    exact (hperm.append_left _).trans List.perm_middle
  cases h with
  | sent h =>
    cases h with
    | dispatched ch =>
      refine hgone ?_
      rw [gone, List.map_append, List.map_singleton, List.append_assoc]
      exact List.perm_middle
    | dropped =>
      refine hgone ?_
      rw [gone, ← List.append_assoc]
      exact List.perm_append_singleton _ _
  | @stored index hindex =>
    -- one bucket is longer by the message
    have hstored : (WheelProc.stored p { s with wheel := s.wheel.store index msg }).Perm
        ([msg] ++ s.stored p) := by
      refine flatMap_perm List.nodup_range (List.mem_range.mpr hindex) ?_ ?_
      · intro b hb
        dsimp only
        rw [TimeWheel.buckets_store_of_ne s.wheel hb]
      · dsimp only
        rw [TimeWheel.buckets_store_self, GoSlice.elems_append]
        exact List.perm_append_comm
    exact hstored.append_right _

theorem Moved.frame (h : s.Moved p msg t) :
    t.deliveries = s.deliveries ∧ t.phase = s.phase ∧ t.ticks = s.ticks ∧
      t.wheel.currentIndex = s.wheel.currentIndex := by
  cases h with
  | sent h => cases h <;> exact ⟨rfl, rfl, rfl, rfl⟩
  | stored => exact ⟨rfl, rfl, rfl, rfl⟩

/-- A list that shares its array with a bucket, and another message. -/
theorem leftover_store {tw : TimeWheel} {b index : ℕ} {rest : GoWindow} {l : List ℕ}
    (h : (tw.buckets b).Leftover rest l)
    (hlt : index = b → l ≠ [] → (tw.buckets b).len < rest.lo) :
    ((tw.store index msg).buckets b).Leftover rest l := by
  by_cases hb : b = index
  · subst hb
    rw [TimeWheel.buckets_store_self]
    exact h.append (hlt rfl) msg
  · rw [TimeWheel.buckets_store_of_ne tw hb]
    exact h

end

end WheelProc

/-! ## Every message is in one place -/

/-- The part of the tick's list that is not processed yet lies behind the bucket. -/
def TickPhase.Sound (p : WheelParams) (buckets : ℕ → GoSlice ℕ) : TickPhase → Prop
  | .idle => True
  | .advanced bucket => bucket < p.wheelSize
  | .delivering bucket rest =>
    bucket < p.wheelSize ∧ (buckets bucket).Leftover rest ((buckets bucket).read rest)

/-- Every message has one place, and the tick's list is still what the tick took. -/
structure WheelInv (p : WheelParams) (s : WheelProc) : Prop where
  conserved : Conserved s.deliveries.length (s.places p)
  index : s.wheel.currentIndex < p.wheelSize
  sound : s.phase.Sound p s.wheel.buckets

namespace WheelInv

variable {p : WheelParams} {s t : WheelProc} {ev : WheelEvent}

theorem init (p : WheelParams) : WheelInv p {} where
  conserved := by
    have hnil : WheelProc.places p {} = [] := by
      rw [WheelProc.places, WheelProc.stored]
      simp [WheelProc.unread, WheelProc.gone]
    rw [hnil]
    exact conserved_nil
  index := p.wheelSize_pos
  sound := trivial

/-- What the tick takes out of its bucket is in its list: cutting the bucket loses nothing. -/
theorem takeBucket (h : WheelInv p s) {b : ℕ} (hphase : s.phase = .advanced b) :
    WheelInv p
      { s with
        wheel := { s.wheel with
          buckets := Function.update s.wheel.buckets b ((s.wheel.buckets b).trunc 0) }
        phase := .delivering b ((s.wheel.buckets b).view 0) } := by
  have hsound := h.sound
  have hconserved := h.conserved
  rw [hphase] at hsound
  rw [WheelProc.places, WheelProc.unread, hphase, List.nil_append] at hconserved
  have hleft := GoSlice.leftover_trunc (s.wheel.buckets b)
  have hread := hleft.read_eq
  -- the bucket is empty now, and what was in it is the list
  have hstored : (s.stored p).Perm ((s.wheel.buckets b).elems ++
      (List.range p.wheelSize).flatMap fun b' => (Function.update s.wheel.buckets b
        ((s.wheel.buckets b).trunc 0) b').elems) := by
    refine flatMap_perm List.nodup_range (List.mem_range.mpr hsound) ?_ ?_
    · intro b' hb'
      rw [Function.update_of_ne hb']
    · rw [Function.update_self, GoSlice.elems_trunc, List.take_zero, List.append_nil]
  refine ⟨?_, h.index, hsound, ?_⟩
  · refine hconserved.perm (List.Perm.trans ?_ (hstored.append_right _).symm)
    rw [WheelProc.places, WheelProc.unread]
    dsimp only
    rw [Function.update_self, hread, ← List.append_assoc]
    exact List.perm_append_comm.append_right _
  · dsimp only
    rw [Function.update_self, hread]
    exact hleft

variable [GrowthPolicy]

/-- Nothing is seen of a message that is stored, if the slot is not one of those. -/
theorem sound_store {index msg : ℕ} (hsound : s.phase.Sound p s.wheel.buckets)
    (hspares : ∀ b rest, s.phase = .delivering b rest → rest.len ≠ 0 → index = b →
      (s.wheel.buckets b).len < rest.lo) :
    s.phase.Sound p (s.wheel.store index msg).buckets ∧
      WheelProc.unread { s with wheel := s.wheel.store index msg } = s.unread := by
  cases hphase : s.phase with
  | idle => exact ⟨trivial, by rw [WheelProc.unread, WheelProc.unread, hphase]⟩
  | advanced b =>
    rw [hphase] at hsound
    exact ⟨hsound, by rw [WheelProc.unread, WheelProc.unread, hphase]⟩
  | delivering b rest =>
    rw [hphase] at hsound
    obtain ⟨hb, hleft⟩ := hsound
    have hkept : ((s.wheel.store index msg).buckets b).Leftover rest
        ((s.wheel.buckets b).read rest) := by
      refine WheelProc.leftover_store hleft fun hindex hne => hspares b rest hphase ?_ hindex
      rw [← hleft.length_eq]
      exact fun hzero => hne (List.length_eq_zero_iff.mp hzero)
    have hread := hkept.read_eq
    refine ⟨⟨hb, by rw [hread]; exact hkept⟩, ?_⟩
    rw [WheelProc.unread, WheelProc.unread, hphase]
    exact hread

/-- A new message is in one place and moves no other. -/
theorem addMessage (h : WheelInv p s) {deliveryAt now : ℤ}
    (hspares : s.phase.Spares p s.wheel deliveryAt now)
    (ht : (s.numbered deliveryAt).settle s.deliveries.length now
      ((s.numbered deliveryAt).wheel.addMessage p deliveryAt now s.deliveries.length) = t) :
    WheelInv p t := by
  have hmoved := WheelProc.moved_addMessage p (s.numbered deliveryAt) s.deliveries.length
    deliveryAt now
  -- only a message that is stored can get in the way of the tick
  have hkept : t.phase.Sound p t.wheel.buckets ∧ t.unread = s.unread := by
    rcases WheelProc.settle_addMessage p (s.numbered deliveryAt) s.deliveries.length deliveryAt
      now with ⟨-, hsent⟩ | ⟨hpos, heq⟩
    · rw [ht] at hsent
      cases hsent <;> exact ⟨h.sound, rfl⟩
    · rw [ht] at heq
      subst heq
      refine sound_store h.sound fun b rest hphase hne hindex => ?_
      have hphase' : s.phase = .delivering b rest := hphase
      rw [hphase'] at hspares
      exact hspares hne hpos hindex
  rw [ht] at hmoved
  obtain ⟨hdeliveries, -, -, hindex⟩ := hmoved.frame
  refine ⟨?_, hindex ▸ h.index, hkept.1⟩
  have hlen : (s.numbered deliveryAt).deliveries.length = s.deliveries.length + 1 :=
    List.length_append
  rw [hdeliveries, hlen, WheelProc.places, hkept.2]
  exact h.conserved.add (hmoved.perm s.unread)

/-- An iteration leaves every message but the one it moves where it is. -/
theorem deliver (h : WheelInv p s) {b msg : ℕ} {rest : GoWindow} {l : List ℕ}
    (hphase : s.phase = .delivering b rest) (hread : (s.wheel.buckets b).read rest = msg :: l)
    (hmoved : s.Moved p msg t) : WheelInv p { t with phase := .delivering b rest.tail } := by
  have hsound := h.sound
  have hconserved := h.conserved
  rw [hphase] at hsound
  obtain ⟨hb, hleft⟩ := hsound
  rw [WheelProc.places, WheelProc.unread, hphase] at hconserved
  dsimp only at hconserved
  rw [hread] at hleft hconserved
  obtain ⟨hleft, hlt⟩ := hleft.tail
  obtain ⟨hdeliveries, -, -, hindex⟩ := hmoved.frame
  have hperm := hmoved.perm l
  -- the message has been read, so there is a slot for it in front of the rest
  have hleft' : (t.wheel.buckets b).Leftover rest.tail l := by
    cases hmoved with
    | sent hsent => cases hsent <;> exact hleft
    | stored => exact WheelProc.leftover_store hleft fun _ _ => hlt
  have hread' := hleft'.read_eq
  refine ⟨?_, hindex ▸ h.index, hb, ?_⟩
  · rw [WheelProc.places, WheelProc.unread]
    dsimp only
    rw [hdeliveries, hread']
    exact hconserved.perm (hperm.trans List.perm_middle.symm)
  · dsimp only
    rw [hread']
    exact hleft'

/-- A step that does not write over what the tick has still to read keeps the places. -/
theorem step (h : WheelInv p s) (hspares : s.SparesUnread p ev t) (hst : s.step p ev = some t) :
    WheelInv p t := by
  have hsound := h.sound
  have hconserved := h.conserved
  cases WheelProc.stepped_of_step hst with
  | addMessage => exact h.addMessage hspares rfl
  | takeBucket hphase => exact h.takeBucket hphase
  | deliver hphase hread => exact h.deliver hphase hread (WheelProc.moved_deliver p s _ _ _ _)
  | startTick hphase =>
    rw [WheelProc.places, WheelProc.unread, hphase] at hconserved
    exact ⟨hconserved, Nat.mod_lt _ p.wheelSize_pos, h.index⟩
  | @endTick b rest hphase hend =>
    rw [hphase] at hsound
    have hnil : (s.wheel.buckets b).read rest = [] :=
      List.length_eq_zero_iff.mp (hsound.2.length_eq.trans hend)
    rw [WheelProc.places, WheelProc.unread, hphase] at hconserved
    dsimp only at hconserved
    rw [hnil] at hconserved
    exact ⟨hconserved, h.index, trivial⟩
  | receive => exact ⟨hconserved, h.index, hsound⟩

/-- **Overwriting**: the message is in its bucket and in the tick's list. -/
theorem not_conserved (h : WheelInv p s) {b : ℕ} {rest : GoWindow}
    (hphase : s.phase = .delivering b rest) (hne : rest.len ≠ 0)
    (hge : ¬ (s.wheel.buckets b).len < rest.lo) (deliveryAt : ℤ) :
    ¬ Conserved (s.numbered deliveryAt).deliveries.length (WheelProc.places p
      { s.numbered deliveryAt with wheel := s.wheel.store b s.deliveries.length }) := by
  have hsound := h.sound
  rw [hphase] at hsound
  obtain ⟨hb, hleft⟩ := hsound
  cases hread : (s.wheel.buckets b).read rest with
  | nil =>
    rw [hread] at hleft
    exact absurd hleft.length_eq.symm hne
  | cons x l =>
    rw [hread] at hleft
    -- the bucket reaches up to the list, and the next slot is the first of the list
    have hat : (s.wheel.buckets b).len = rest.lo :=
      le_antisymm (hleft.len_le (List.cons_ne_nil x l)) (not_lt.mp hge)
    have hseen := (hleft.append_at hat s.deliveries.length).read_eq
    intro hconserved
    have hnodup := hconserved.nodup
    rw [WheelProc.places, List.nodup_append] at hnodup
    refine hnodup.2.2 s.deliveries.length ?_ s.deliveries.length (List.mem_append_left _ ?_) rfl
    · refine List.mem_flatMap.mpr ⟨b, List.mem_range.mpr hb, ?_⟩
      dsimp only
      rw [TimeWheel.buckets_store_self, GoSlice.elems_append]
      exact List.mem_append_right _ List.mem_cons_self
    · have hphase' : (s.numbered deliveryAt).phase = .delivering b rest := hphase
      rw [WheelProc.unread]
      dsimp only
      rw [hphase']
      dsimp only
      rw [TimeWheel.buckets_store_self, hseen]
      exact List.mem_cons_self

/-- **Step**, the other way round. -/
theorem spares_of_conserved (h : WheelInv p s) (hst : s.step p ev = some t)
    (hconserved : Conserved t.deliveries.length (t.places p)) : s.SparesUnread p ev t := by
  cases WheelProc.stepped_of_step hst with
  | takeBucket | deliver | startTick | endTick | receive => trivial
  | addMessage deliveryAt now =>
    show s.phase.Spares p s.wheel deliveryAt now
    cases hphase : s.phase with
    | idle | advanced => trivial
    | delivering b rest =>
      intro hne hpos hindex
      by_contra hge
      rcases WheelProc.settle_addMessage p (s.numbered deliveryAt) s.deliveries.length deliveryAt
        now with ⟨hdue, -⟩ | ⟨-, heq⟩
      · exact absurd hpos (not_lt.mpr hdue)
      · have hindex' : (s.numbered deliveryAt).wheel.bucketIndex p deliveryAt now = b := hindex
        rw [heq, hindex'] at hconserved
        exact h.not_conserved hphase hne hge deliveryAt hconserved

end WheelInv

section

variable [GrowthPolicy] {p : WheelParams} {s : WheelProc}

theorem WheelInv.of_run (hrun : Run (WheelProc.step p) (WheelProc.SparesUnread p) {} s) :
    WheelInv p s := by
  refine hrun.invariant (P := WheelInv p) (.init p) ?_
  exact fun _ _ _ h hspares hst => h.step hspares hst

/-- **Conservation.** As long as no `AddMessage` from outside overwrites what the tick has yet to
read, every message is in a bucket, in the part of the tick's list that is not processed yet, or
dispatched, and only once; a step that overwrites something ends this. -/
theorem wheel_conserved (hrun : Run (WheelProc.step p) (WheelProc.SparesUnread p) {} s)
    (hroom : s.dropped = []) :
    (∀ msg, (s.stored p).count msg + s.unread.count msg +
        (s.dispatched.map Prod.fst).count msg = if msg < s.deliveries.length then 1 else 0) ∧
      ∀ ev t, s.step p ev = some t →
        (Conserved t.deliveries.length (t.places p) ↔ s.SparesUnread p ev t) := by
  have h := WheelInv.of_run hrun
  refine ⟨fun msg => ?_, fun ev t hst => ?_⟩
  · rw [← h.conserved.count_eq msg, WheelProc.places, WheelProc.gone, hroom, List.append_nil,
      List.count_append, List.count_append, Nat.add_assoc]
  · exact ⟨h.spares_of_conserved hst, fun hspares => (h.step hspares hst).conserved⟩

end

section

open scoped GrowthPolicy

/-- A wheel with one bucket and a tick each millisecond. -/
def oneBucket : WheelParams := ⟨1, 1, Nat.one_pos, Nat.one_pos⟩

/-- Two messages are in the list of a tick. The first one is dispatched, and a third one comes into
the bucket: its slot is that of the first. -/
theorem wheel_conserved_three :
    ∃ s : WheelProc, s.stored oneBucket = [2] ∧ s.unread.count 1 = 1 ∧ s.unread.count 0 = 0 := by
  obtain ⟨s, hrun, hroom, hstored, hlen, hdispatched⟩ : ∃ s,
      Run (WheelProc.step oneBucket) (WheelProc.SparesUnread oneBucket) {} s ∧
      s.dropped = [] ∧ s.stored oneBucket = [2] ∧ s.deliveries.length = 3 ∧
      s.dispatched.map Prod.fst = [0] :=
    exists_run_of_execWith
      [.addMessage (10 ^ 6) 0, .addMessage (9 * 10 ^ 6) 0, .startTick, .takeBucket,
        .deliver (10 ^ 6) (10 ^ 6) (10 ^ 6), .addMessage (9 * 10 ^ 6) (10 ^ 6)]
      (by decide +kernel)
  have hcount := (wheel_conserved hrun hroom).1
  rw [hstored, hdispatched, hlen] at hcount
  exact ⟨s, hstored, by simpa using hcount 1, by simpa using hcount 0⟩

/-- A tick has taken its list with message 0 in it, and message 1 comes into the same bucket before
the first iteration. Message 0 is lost, and message 1 is there twice. -/
theorem unread_overwritten :
    ∃ s : WheelProc, Run (WheelProc.step oneBucket) (fun _ _ _ => True) {} s ∧
      s.dropped = [] ∧ s.deliveries.length = 2 ∧ s.places oneBucket = [1, 1] :=
  exists_run_of_execWith
    [.addMessage (9 * 10 ^ 6) 0, .startTick, .takeBucket, .addMessage (9 * 10 ^ 6) (10 ^ 6),
      .deliver (10 ^ 6) (10 ^ 6) (10 ^ 6), .endTick]
    (by decide +kernel)

end

end DistributedMQ.Storage
