import DistributedMQ.Client.Decoder
import DistributedMQ.Lib.Machine

/-!
# Responses and callers (`MQProducer.java` lines 75–123 and 158–185)

All threads that send to a broker share a channel, and with it one `MQResponseHandler`, which
has room for one pending call. A response goes to the call that has registered last, whichever
request it answers.

A call of `doSend` is a sequence of steps. The steps of all calls on a channel, the responses of
the broker and the end of the connection interleave. The broker answers in the order in which
the requests were written.

- `response_of_own_request`: as long as a call registers only while no other request is
  unanswered, every call gets the answer to its own request.
-/

namespace DistributedMQ.Client

/-- Where a call of `doSend` stands. -/
inductive CallPhase where
  /-- Before `pipeline().get`. -/
  | start
  /-- There was no handler; before `addLast`. -/
  | noHandler
  /-- Before `setPendingResponse`. -/
  | ready
  /-- Before `writeAndFlush`. -/
  | registered
  /-- In `latch.await`. -/
  | waiting
  | returned
  | threw
deriving DecidableEq

/-- A call with its `result[0]` and whether its latch has been counted down. -/
structure SendState where
  phase : CallPhase := .start
  result : Option FetchResponse := none
  released : Bool := false
deriving DecidableEq

/-- The fields of a `MQResponseHandler`: the calls whose result and whose latch they are. -/
structure MQResponseHandler where
  pendingResult : Option ℕ := none
  pendingLatch : Option ℕ := none
deriving DecidableEq

/-- A channel. -/
structure SharedChannel where
  calls : List SendState := []
  /-- `none` before the first `addLast`. -/
  handler : Option MQResponseHandler := none
  /-- The calls whose requests have been written and not been answered. -/
  unanswered : List ℕ := []
  active : Bool := true
deriving DecidableEq

inductive ChannelEvent where
  /-- A thread calls `doSend`. -/
  | doSend
  /-- The call looks for the handler. -/
  | getHandler (k : ℕ)
  /-- The call adds a handler; a second one of the same name is refused. -/
  | addHandler (k : ℕ)
  | setPendingResponse (k : ℕ)
  | writeAndFlush (k : ℕ)
  /-- The listener of a write that has failed. -/
  | writeFailed (k : ℕ)
  /-- The next answer of the broker arrives. -/
  | channelRead0
  | exceptionCaught
  /-- The connection ends. -/
  | close
  /-- `latch.await` returns: the latch has been counted down. -/
  | wake (k : ℕ)
  /-- `latch.await` returns after five seconds. -/
  | timeout (k : ℕ)
deriving DecidableEq

namespace SharedChannel

/-- Call `k` goes on. -/
def update (s : SharedChannel) (k : ℕ) (f : SendState → SendState) : SharedChannel :=
  { s with calls := s.calls.modify k f }

/-- Call `k` is at this point. -/
def At (s : SharedChannel) (k : ℕ) (phase : CallPhase) : Prop :=
  ∃ c ∈ s.calls[k]?, c.phase = phase

instance (s : SharedChannel) (k : ℕ) (phase : CallPhase) : Decidable (s.At k phase) :=
  inferInstanceAs (Decidable (∃ c ∈ s.calls[k]?, _))

/-- Call `k` is in `latch.await`, and its latch has been counted down or not. -/
def Awaits (s : SharedChannel) (k : ℕ) (released : Bool) : Prop :=
  ∃ c ∈ s.calls[k]?, c.phase = .waiting ∧ c.released = released

instance (s : SharedChannel) (k : ℕ) (released : Bool) : Decidable (s.Awaits k released) :=
  inferInstanceAs (Decidable (∃ c ∈ s.calls[k]?, _))

/-- Count down the latch, if there is one. -/
def countDown (s : SharedChannel) : Option ℕ → SharedChannel
  | none => s
  | some k => s.update k fun c => { c with released := true }

/-- `channelRead0` with a message. -/
def deliver (s : SharedChannel) (h : MQResponseHandler) (msg : FetchResponse) : SharedChannel :=
  match h.pendingResult, h.pendingLatch with
  | some k, some l =>
    let s := s.update k fun c => { c with result := some msg }
    { s.countDown (some l) with handler := some {} }
  | _, _ => s

variable (answer : ℕ → FetchResponse)

/-- `answer k` is what the broker answers to the request of call `k`. -/
def step (s : SharedChannel) : ChannelEvent → Option SharedChannel
  | .doSend => some { s with calls := s.calls ++ [{}] }
  | .getHandler k =>
    if s.At k .start then
      some (s.update k fun c =>
        { c with phase := if s.handler = none then .noHandler else .ready })
    else none
  | .addHandler k =>
    if s.At k .noHandler then
      match s.handler with
      | none => some { s.update k (fun c => { c with phase := .ready }) with handler := some {} }
      | some _ => some (s.update k fun c => { c with phase := .threw })
    else none
  | .setPendingResponse k =>
    if s.At k .ready then
      some { s.update k (fun c => { c with phase := .registered }) with
        handler := some { pendingResult := some k, pendingLatch := some k } }
    else none
  | .writeAndFlush k =>
    if s.At k .registered ∧ s.active then
      some { s.update k (fun c => { c with phase := .waiting }) with
        unanswered := s.unanswered ++ [k] }
    else none
  | .writeFailed k =>
    if s.At k .registered then
      some (s.update k fun c => { c with phase := .waiting, released := true })
    else none
  | .channelRead0 =>
    match s.unanswered with
    | [] => none
    | k :: rest =>
      if s.active then
        let s := { s with unanswered := rest }
        match s.handler with
        | none => some s
        | some h => some (s.deliver h (answer k))
      else none
  | .exceptionCaught =>
    match s.handler with
    | none => none
    | some h =>
      some { s.countDown h.pendingLatch with
        handler := some { h with pendingLatch := none }
        active := false }
  | .close => some { s with active := false }
  | .wake k =>
    if s.Awaits k true then
      some (s.update k fun c =>
        { c with phase := if c.result = none then .threw else .returned })
    else none
  | .timeout k =>
    if s.Awaits k false then some (s.update k fun c => { c with phase := .threw }) else none

/-- A call registers only while no other one is between registering and writing, and no request
is unanswered. -/
def OneAtATime (s : SharedChannel) (ev : ChannelEvent) (_ : SharedChannel) : Prop :=
  match ev with
  | .setPendingResponse _ => (∀ c ∈ s.calls, c.phase ≠ .registered) ∧ s.unanswered = []
  | _ => True

instance (s : SharedChannel) : ∀ ev s', Decidable (OneAtATime s ev s')
  | .setPendingResponse _, _ => inferInstanceAs (Decidable (_ ∧ _))
  | .doSend, _ => inferInstanceAs (Decidable True)
  | .getHandler _, _ => inferInstanceAs (Decidable True)
  | .addHandler _, _ => inferInstanceAs (Decidable True)
  | .writeAndFlush _, _ => inferInstanceAs (Decidable True)
  | .writeFailed _, _ => inferInstanceAs (Decidable True)
  | .channelRead0, _ => inferInstanceAs (Decidable True)
  | .exceptionCaught, _ => inferInstanceAs (Decidable True)
  | .close, _ => inferInstanceAs (Decidable True)
  | .wake _, _ => inferInstanceAs (Decidable True)
  | .timeout _, _ => inferInstanceAs (Decidable True)

/-! ## One request at a time -/

/-- The call is between `setPendingResponse` and `writeAndFlush`. -/
def Registered (calls : List SendState) (k : ℕ) : Prop :=
  ∃ c, calls[k]? = some c ∧ c.phase = .registered

/-- A request that is registered or unanswered is the pending one; so there is at most one. -/
structure PendingInv (calls : List SendState) (pendingResult : Option ℕ)
    (unanswered : List ℕ) : Prop where
  own : ∀ k c r, calls[k]? = some c → c.result = some r → r = answer k
  pending : ∀ k, Registered calls k ∨ k ∈ unanswered → pendingResult = some k
  written : ∀ k ∈ unanswered, ¬ Registered calls k
  nodup : unanswered.Nodup

/-- The call whose result the handler will set. -/
def pendingResult (s : SharedChannel) : Option ℕ := s.handler.bind (·.pendingResult)

theorem pendingResult_of_handler {s : SharedChannel} {hd : MQResponseHandler}
    (h : s.handler = some hd) : s.pendingResult = hd.pendingResult := by
  rw [pendingResult, h]
  rfl

namespace PendingInv

variable {answer : ℕ → FetchResponse} {calls : List SendState} {pending : Option ℕ}
  {unanswered : List ℕ} {k : ℕ} {f : SendState → SendState}

theorem init : PendingInv answer [] none [] where
  own _ _ _ h := absurd h.symm (Option.some_ne_none _)
  pending := by
    rintro k (⟨c, hc, -⟩ | hk)
    · exact absurd hc.symm (Option.some_ne_none _)
    · exact absurd hk List.not_mem_nil
  written _ hk := absurd hk List.not_mem_nil
  nodup := List.nodup_nil

theorem exists_of_modify {j : ℕ} {c : SendState} (h : (calls.modify k f)[j]? = some c) :
    ∃ c', calls[j]? = some c' ∧ (c = c' ∨ j = k ∧ c = f c') := by
  rw [List.getElem?_modify] at h
  obtain ⟨c', hc', rfl⟩ := Option.map_eq_some_iff.mp h
  refine ⟨c', hc', ?_⟩
  split
  · rename_i heq
    exact Or.inr ⟨heq.symm, rfl⟩
  · exact Or.inl rfl

theorem registered_of_modify (hphase : ∀ c, (f c).phase = .registered → c.phase = .registered)
    {j : ℕ} (h : Registered (calls.modify k f) j) : Registered calls j := by
  obtain ⟨c, hc, hreg⟩ := h
  obtain ⟨c', hc', rfl | ⟨-, rfl⟩⟩ := exists_of_modify hc
  · exact ⟨c, hc', hreg⟩
  · exact ⟨c', hc', hphase c' hreg⟩

theorem own_modify (h : PendingInv answer calls pending unanswered)
    (hresult : ∀ c, (f c).result = c.result) (j : ℕ) (c : SendState) (r : FetchResponse)
    (hc : (calls.modify k f)[j]? = some c) (hr : c.result = some r) : r = answer j := by
  obtain ⟨c', hc', rfl | ⟨-, rfl⟩⟩ := exists_of_modify hc
  · exact h.own j c r hc' hr
  · exact h.own j c' r hc' (by rw [← hresult c', hr])

/-- A call goes on without registering, and its result stays as it is. -/
theorem modify (h : PendingInv answer calls pending unanswered)
    (hresult : ∀ c, (f c).result = c.result)
    (hphase : ∀ c, (f c).phase = .registered → c.phase = .registered) :
    PendingInv answer (calls.modify k f) pending unanswered where
  own := h.own_modify hresult
  pending j hj := h.pending j (hj.imp_left (registered_of_modify hphase))
  written j hj hreg := h.written j hj (registered_of_modify hphase hreg)
  nodup := h.nodup

theorem doSend (h : PendingInv answer calls pending unanswered) {new : SendState}
    (hphase : new.phase ≠ .registered) (hresult : new.result = none) :
    PendingInv answer (calls ++ [new]) pending unanswered := by
  have hold {j : ℕ} {c : SendState} (hc : (calls ++ [new])[j]? = some c) :
      calls[j]? = some c ∨ c = new := by
    rcases Nat.lt_or_ge j calls.length with hlt | hge
    · exact Or.inl (by rwa [List.getElem?_append_left hlt] at hc)
    · rw [List.getElem?_append_right hge] at hc
      exact Or.inr (List.mem_singleton.mp (List.mem_of_getElem? hc))
  have hreg {j : ℕ} (hj : Registered (calls ++ [new]) j) : Registered calls j := by
    obtain ⟨c, hc, hcreg⟩ := hj
    rcases hold hc with hc | rfl
    · exact ⟨c, hc, hcreg⟩
    · exact absurd hcreg hphase
  refine ⟨?_, fun j hj => h.pending j (hj.imp_left hreg), fun j hj hj' => h.written j hj (hreg hj'),
    h.nodup⟩
  intro j c r hc hr
  rcases hold hc with hc | rfl
  · exact h.own j c r hc hr
  · exact absurd (hr.symm.trans hresult) (Option.some_ne_none _)

theorem setPendingResponse (h : PendingInv answer calls pending [])
    (hidle : ∀ c ∈ calls, c.phase ≠ .registered) (hresult : ∀ c, (f c).result = c.result) :
    PendingInv answer (calls.modify k f) (some k) [] where
  own := h.own_modify hresult
  pending := by
    rintro j (⟨c, hc, hreg⟩ | hj)
    · obtain ⟨c', hc', rfl | ⟨rfl, -⟩⟩ := exists_of_modify hc
      · exact absurd hreg (hidle c (List.mem_of_getElem? hc'))
      · rfl
    · exact absurd hj List.not_mem_nil
  written _ hj := absurd hj List.not_mem_nil
  nodup := List.nodup_nil

/-- The registered call writes its request. -/
theorem writeAndFlush (h : PendingInv answer calls pending unanswered)
    (hk : Registered calls k) (hresult : ∀ c, (f c).result = c.result)
    (hphase : ∀ c, (f c).phase ≠ .registered) :
    PendingInv answer (calls.modify k f) pending (unanswered ++ [k]) := by
  have hreg := @registered_of_modify calls k f fun c hc => absurd hc (hphase c)
  have hmodify := @modify answer calls pending unanswered k f h hresult
    fun c hc => absurd hc (hphase c)
  refine ⟨hmodify.own, ?_, ?_, ?_⟩
  · rintro j (hj | hj)
    · exact h.pending j (Or.inl (hreg hj))
    · rcases List.mem_append.mp hj with hj | hj
      · exact h.pending j (Or.inr hj)
      · obtain rfl := List.mem_singleton.mp hj
        exact h.pending j (Or.inl hk)
  · intro j hj hreg'
    rcases List.mem_append.mp hj with hj | hj
    · exact hmodify.written j hj hreg'
    · obtain rfl := List.mem_singleton.mp hj
      obtain ⟨c, hc, hcreg⟩ := hreg'
      rw [List.getElem?_modify_eq] at hc
      obtain ⟨c', -, rfl⟩ := Option.map_eq_some_iff.mp hc
      exact hphase c' hcreg
  · have hfresh : k ∉ unanswered := fun hmem => h.written k hmem hk
    exact List.nodup_append.mpr ⟨h.nodup, List.nodup_singleton k, by
      rintro a ha b hb rfl
      exact hfresh (List.mem_singleton.mp hb ▸ ha)⟩

/-- An answer is read and dropped. -/
theorem tail {rest : List ℕ} (h : PendingInv answer calls pending (k :: rest)) :
    PendingInv answer calls pending rest where
  own := h.own
  pending j hj := h.pending j (hj.imp_right (List.mem_cons_of_mem k))
  written j hj := h.written j (List.mem_cons_of_mem k hj)
  nodup := (List.nodup_cons.mp h.nodup).2

/-- An answer is read and stored: the pending call is the one whose request it answers. -/
theorem channelRead0 {rest : List ℕ} (h : PendingInv answer calls pending (k :: rest))
    (hresult : ∀ c, (f c).result = some (answer k))
    (hphase : ∀ c, (f c).phase = .registered → c.phase = .registered) :
    PendingInv answer (calls.modify k f) none rest := by
  have hk := h.pending k (Or.inr List.mem_cons_self)
  have hreg := @registered_of_modify calls k f hphase
  -- another registered or unanswered request would be the pending one, too
  have hnone (j : ℕ) (hj : Registered (calls.modify k f) j ∨ j ∈ rest) : False := by
    have hmem := hj.imp hreg (List.mem_cons_of_mem k)
    obtain rfl := Option.some.inj (hk.symm.trans (h.pending j hmem))
    rcases hj with hj | hj
    · exact h.written k List.mem_cons_self (hreg hj)
    · exact (List.nodup_cons.mp h.nodup).1 hj
  refine ⟨?_, fun j hj => (hnone j hj).elim, fun j hj => (hnone j (Or.inr hj)).elim,
    h.tail.nodup⟩
  intro j c r hc hr
  obtain ⟨c', hc', rfl | ⟨rfl, rfl⟩⟩ := exists_of_modify hc
  · exact h.own j c r hc' hr
  · exact Option.some.inj (hr.symm.trans (hresult c'))

theorem countDown {s : SharedChannel} (h : PendingInv answer s.calls pending s.unanswered)
    (l : Option ℕ) :
    PendingInv answer (s.countDown l).calls pending (s.countDown l).unanswered := by
  cases l with
  | none => exact h
  | some l => exact h.modify (fun _ => rfl) (fun _ hc => hc)

theorem deliver {s : SharedChannel} {hd : MQResponseHandler} {rest : List ℕ}
    (hhandler : s.handler = some hd)
    (h : PendingInv answer s.calls hd.pendingResult (k :: rest)) :
    PendingInv answer ({ s with unanswered := rest }.deliver hd (answer k)).calls
      ({ s with unanswered := rest }.deliver hd (answer k)).pendingResult
      ({ s with unanswered := rest }.deliver hd (answer k)).unanswered := by
  have hk : hd.pendingResult = some k := h.pending k (Or.inr List.mem_cons_self)
  unfold SharedChannel.deliver
  rw [hk]
  split
  · rename_i k' l heq hl
    cases heq
    have hstored := @channelRead0 answer s.calls hd.pendingResult k
      (fun c => { c with result := some (answer k) }) rest h (fun _ => rfl) (fun _ hc => hc)
    exact @countDown answer none
      ({ s with unanswered := rest }.update k fun c => { c with result := some (answer k) })
      hstored (some l)
  · have hpending : pendingResult { s with unanswered := rest } = hd.pendingResult :=
      pendingResult_of_handler hhandler
    rw [hpending]
    exact h.tail

theorem step {s s' : SharedChannel} {ev : ChannelEvent}
    (h : PendingInv answer s.calls s.pendingResult s.unanswered) (hguard : OneAtATime s ev s')
    (hstep : SharedChannel.step answer s ev = some s') :
    PendingInv answer s'.calls s'.pendingResult s'.unanswered := by
  cases ev with
  | doSend =>
    cases hstep
    exact h.doSend (by decide) rfl
  | getHandler k =>
    obtain ⟨-, hs⟩ := Option.ite_none_right_eq_some.mp hstep
    cases hs
    -- the call moves on, and no result is set
    refine h.modify (fun _ => rfl) (fun c hc => ?_)
    dsimp only at hc
    split at hc
    · cases hc
    · cases hc
  | addHandler k =>
    dsimp only [SharedChannel.step] at hstep
    split at hstep
    · split at hstep
      · rename_i hnone
        cases hstep
        have hpending : s.pendingResult = none := by rw [pendingResult, hnone]; rfl
        rw [hpending] at h
        exact h.modify (fun _ => rfl) (fun _ hc => by cases hc)
      · cases hstep
        exact h.modify (fun _ => rfl) (fun _ hc => by cases hc)
    · cases hstep
  | setPendingResponse k =>
    -- the guard: no other call waits, and no result is left over
    obtain ⟨hidle, hnone⟩ := hguard
    obtain ⟨-, hs⟩ := Option.ite_none_right_eq_some.mp hstep
    cases hs
    rw [hnone] at h
    exact hnone ▸ h.setPendingResponse hidle (fun _ => rfl)
  | writeAndFlush k =>
    obtain ⟨hk, hs⟩ := Option.ite_none_right_eq_some.mp hstep
    cases hs
    exact h.writeAndFlush hk.1 (fun _ => rfl) (fun _ hc => by cases hc)
  | writeFailed k =>
    obtain ⟨-, hs⟩ := Option.ite_none_right_eq_some.mp hstep
    cases hs
    exact h.modify (fun _ => rfl) (fun _ hc => by cases hc)
  | channelRead0 =>
    dsimp only [SharedChannel.step] at hstep
    split at hstep
    · cases hstep
    · rename_i k rest hunanswered
      rw [hunanswered] at h
      -- the answer to the oldest request goes to the handler installed
      split at hstep
      · split at hstep
        · cases hstep
          exact h.tail
        · rename_i hd hhandler
          cases hstep
          rw [pendingResult_of_handler hhandler] at h
          exact deliver hhandler h
      · cases hstep
  | exceptionCaught =>
    dsimp only [SharedChannel.step] at hstep
    split at hstep
    · cases hstep
    · rename_i hd hhandler
      cases hstep
      rw [pendingResult_of_handler hhandler] at h
      exact h.countDown hd.pendingLatch
  | close =>
    cases hstep
    exact h
  | wake k =>
    obtain ⟨-, hs⟩ := Option.ite_none_right_eq_some.mp hstep
    cases hs
    refine h.modify (fun _ => rfl) (fun c hc => ?_)
    dsimp only at hc
    split at hc
    · cases hc
    · cases hc
  | timeout k =>
    obtain ⟨-, hs⟩ := Option.ite_none_right_eq_some.mp hstep
    cases hs
    exact h.modify (fun _ => rfl) (fun _ hc => by cases hc)

end PendingInv

/-- **Responses.** In every interleaving in which a call registers only while no other request
is registered or unanswered, what is stored for a call is the answer to its own request. -/
theorem response_of_own_request {answer : ℕ → FetchResponse} {s : SharedChannel}
    (hrun : Machine.Run (step answer) OneAtATime {} s) {k : ℕ} {c : SendState}
    (hc : s.calls[k]? = some c) {r : FetchResponse} (hr : c.result = some r) : r = answer k := by
  have hinv : PendingInv answer s.calls s.pendingResult s.unanswered := by
    refine hrun.invariant (P := fun s => PendingInv answer s.calls s.pendingResult s.unanswered)
      PendingInv.init ?_
    exact fun _ _ _ h hguard hstep => h.step hguard hstep
  exact hinv.own k c r hc hr

/-- The broker refuses the request of call 0 and redirects every other one. -/
def twoAnswersTo (k : ℕ) : FetchResponse :=
  if k = 0 then { status := MQCommand.RESP_ERROR }
  else { status := MQCommand.RESP_REDIRECT, redirectLeader := some [98] }

/-- Two calls one after the other. -/
theorem response_of_own_request_two :
    ∃ (s : SharedChannel) (c : SendState), Machine.Run (step twoAnswersTo) OneAtATime {} s ∧
      s.calls[1]? = some c ∧ c.result = some (twoAnswersTo 1) := by
  obtain ⟨s, hrun, c, hc, hresult⟩ :
      ∃ s : SharedChannel, Machine.Run (step twoAnswersTo) OneAtATime {} s ∧
        ∃ c ∈ s.calls[1]?, c.result ≠ none :=
    Machine.exists_run_of_execWith
      [.doSend, .getHandler 0, .addHandler 0, .setPendingResponse 0, .writeAndFlush 0,
        .channelRead0, .wake 0, .doSend, .getHandler 1, .setPendingResponse 1, .writeAndFlush 1,
        .channelRead0]
      (by decide +kernel)
  obtain ⟨r, hr⟩ := Option.ne_none_iff_exists'.mp hresult
  exact ⟨s, c, hrun, hc, by rw [hr, response_of_own_request hrun hc hr]⟩

/-- Call 1 registers while the request of call 0 is unanswered, and gets its answer. -/
theorem response_of_other_request :
    ∃ (s : SharedChannel), Machine.Run (step twoAnswersTo) (fun _ _ _ => True) {} s ∧
      ∃ c ∈ s.calls[1]?, c.result = some (twoAnswersTo 0) ∧ twoAnswersTo 0 ≠ twoAnswersTo 1 :=
  Machine.exists_run_of_execWith
    [.doSend, .doSend, .getHandler 0, .addHandler 0, .getHandler 1, .setPendingResponse 0,
      .writeAndFlush 0, .setPendingResponse 1, .writeAndFlush 1, .channelRead0]
    (by decide +kernel)

end SharedChannel

end DistributedMQ.Client
