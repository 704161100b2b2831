import DistributedMQ.Lib.Eviction
import DistributedMQ.Lib.History
import DistributedMQ.Lib.Machine
import DistributedMQ.Lib.Naming
import DistributedMQ.Raft.Types

/-!
# Broker transactions (`transaction/transaction.go`)

A producer begins a transaction, adds messages to it, prepares it and commits it or rolls it
back. A background sweep rolls old transactions back, and `BeginTransaction` evicts the
oldest one when the table is full.

A clock reading is the number of nanoseconds since 1970, as `UnixNano` returns it. The
readings and the order of the map are inputs. `TxnProc` keeps, beside the manager, what has
happened so far.

- `sees_of_step`: what a step does to one transaction, and what is noted about it.
- `Life`: what may happen to one transaction, and its state and messages afterwards.
- `LifeInv`: the history of every id is such a life.
- `transaction_lifecycle`: states only move forward, an id is committed at most once, and
  what `Commit` returns are the messages that were added.
- `prepared_committable`: a prepared transaction can be committed as long as
  `BeginTransaction` spares it.
- `prepared_evicted`: `BeginTransaction` does not look at the state of its victim.
-/

namespace DistributedMQ.Broker

open Raft Machine History Naming

inductive TransactionState where
  | pending
  | prepared
  | committed
  | rolledBack
  | unknown
deriving DecidableEq, Repr

/-- The constants of the source. -/
def TransactionState.text : TransactionState → String
  | .pending => "PENDING"
  | .prepared => "PREPARED"
  | .committed => "COMMITTED"
  | .rolledBack => "ROLLED_BACK"
  | .unknown => "UNKNOWN"

/-- Neither committed nor rolled back. -/
def TransactionState.Open (state : TransactionState) : Prop :=
  state = .pending ∨ state = .prepared

instance (state : TransactionState) : Decidable state.Open :=
  inferInstanceAs (Decidable (_ ∨ _))

structure TransactionMessage where
  topic : String
  partition : ℤ
  data : List UInt8
  offset : ℤ := 0
deriving DecidableEq, Repr

structure Transaction where
  state : TransactionState
  messages : List TransactionMessage
  startTime : ℕ
deriving DecidableEq, Repr

structure TransactionManager where
  transactions : GoMap ByteString Transaction := ∅
  maxTransactions : ℤ
  expireAfter : ℤ

/-- Nanoseconds since the zero `time.Time`. -/
def sinceZero (reading : ℕ) : ℕ := reading + 62135596800 * 10 ^ 9

namespace TransactionManager

/-- The transaction the eviction loop of `BeginTransaction` ends with, in this order of the
map. -/
def oldest (order : List (ByteString × Transaction)) : ByteString :=
  Eviction.oldest (fun txn => sinceZero txn.startTime) [] order

/-- Evict a transaction if there are too many. -/
def makeRoom (tm : TransactionManager) (order : List (ByteString × Transaction)) :
    TransactionManager :=
  if tm.maxTransactions ≤ tm.transactions.len then
    { tm with transactions := tm.transactions.erase (oldest order) }
  else tm

/-- `BeginTransaction` reads the clock twice: for the id and for the start time. -/
def beginTransaction (tm : TransactionManager) (order : List (ByteString × Transaction))
    (producerID : ByteString) (idTime startTime : ℕ) : TransactionManager × ByteString :=
  let tm := tm.makeRoom order
  let txnID := dashed producerID idTime
  ({ tm with
     transactions :=
       tm.transactions.insert txnID { state := .pending, messages := [], startTime } }, txnID)

/-- The calls that change one transaction: `f` checks it and says what becomes of it. -/
def update {α : Type} (tm : TransactionManager) (txnID : ByteString)
    (f : Transaction → Except String (Transaction × α)) : TransactionManager × Except String α :=
  match tm.transactions.lookup txnID with
  | none => (tm, .error s!"transaction {text txnID} not found")
  | some txn =>
    match f txn with
    | .error e => (tm, .error e)
    | .ok (txn, a) => ({ tm with transactions := tm.transactions.insert txnID txn }, .ok a)

def addMessage (tm : TransactionManager) (txnID : ByteString) (topic : String) (partition : ℤ)
    (data : List UInt8) : TransactionManager × Except String Unit :=
  tm.update txnID fun txn =>
    if txn.state ≠ .pending then
      .error s!"cannot add message to transaction in state {txn.state.text}"
    else .ok ({ txn with messages := txn.messages ++ [{ topic, partition, data }] }, ())

def prepare (tm : TransactionManager) (txnID : ByteString) :
    TransactionManager × Except String Unit :=
  tm.update txnID fun txn =>
    if txn.state ≠ .pending then
      .error s!"cannot prepare transaction in state {txn.state.text}"
    else if txn.messages.length = 0 then .error "cannot prepare empty transaction"
    else .ok ({ txn with state := .prepared }, ())

def commit (tm : TransactionManager) (txnID : ByteString) :
    TransactionManager × Except String (List TransactionMessage) :=
  tm.update txnID fun txn =>
    if txn.state ≠ .prepared then
      .error s!"cannot commit transaction in state {txn.state.text}"
    else .ok ({ txn with state := .committed }, txn.messages)

def rollback (tm : TransactionManager) (txnID : ByteString) :
    TransactionManager × Except String Unit :=
  tm.update txnID fun txn =>
    if txn.state ≠ .pending ∧ txn.state ≠ .prepared then
      .error s!"cannot rollback transaction in state {txn.state.text}"
    else .ok ({ txn with state := .rolledBack }, ())

/-- The sweep rolls this transaction back. -/
def Expires (tm : TransactionManager) (now : ℕ) (txn : Transaction) : Prop :=
  tm.expireAfter < (now : ℤ) - txn.startTime ∧ txn.state.Open

instance (tm : TransactionManager) (now : ℕ) (txn : Transaction) :
    Decidable (tm.Expires now txn) :=
  inferInstanceAs (Decidable (_ ∧ _))

/-- A tick of `cleanupExpired`. -/
def cleanupExpired (tm : TransactionManager) (now : ℕ) : TransactionManager :=
  { tm with
    transactions := tm.transactions.mapValues fun txn =>
      if tm.Expires now txn then { txn with state := .rolledBack } else txn }

end TransactionManager

/-! ## Runs -/

/-- What has happened: the calls that were successful, and what the manager does by
itself. -/
inductive TxnNote where
  | begun (txnID : ByteString)
  | added (txnID : ByteString) (message : TransactionMessage)
  | prepared (txnID : ByteString)
  | committed (txnID : ByteString) (messages : List TransactionMessage)
  | rolledBack (txnID : ByteString)
  | expired (txnID : ByteString)
  | evicted (txnID : ByteString)
deriving DecidableEq

def TxnNote.txnID : TxnNote → ByteString
  | .begun txnID | .added txnID _ | .prepared txnID | .committed txnID _ | .rolledBack txnID
  | .expired txnID | .evicted txnID => txnID

def TxnNote.isCommit : TxnNote → Bool
  | .committed _ _ => true
  | _ => false

structure TxnProc where
  tm : TransactionManager
  history : List TxnNote := []
  /-- The clock has not passed this reading yet. -/
  clock : ℕ := 0

inductive TxnEvent where
  | beginTransaction (order : List (ByteString × Transaction)) (producerID : ByteString)
      (idTime startTime : ℕ)
  | addMessage (txnID : ByteString) (topic : String) (partition : ℤ) (data : List UInt8)
  | prepare (txnID : ByteString)
  | commit (txnID : ByteString)
  | rollback (txnID : ByteString)
  | cleanupExpired (now : ℕ)

namespace TxnProc

/-- `NewTransactionManager`. -/
def new (maxTransactions expireAfter : ℤ) : TxnProc where
  tm := { maxTransactions, expireAfter }

/-- A call returns: if it was successful that is noted. -/
def returned {α : Type} (s : TxnProc) (res : TransactionManager × Except String α)
    (note : α → TxnNote) : TxnProc :=
  match res with
  | (tm, .ok a) => { s with tm, history := s.history ++ [note a] }
  | (tm, .error _) => { s with tm }

def step (s : TxnProc) : TxnEvent → Option TxnProc
  | .beginTransaction order producerID idTime startTime =>
    if s.tm.transactions.Order order then
      let (tm, txnID) := s.tm.beginTransaction order producerID idTime startTime
      let victims := s.tm.transactions.keys.filter fun victim =>
        victim ∉ (s.tm.makeRoom order).transactions.keys
      some
        { tm
          history := s.history ++ victims.map .evicted ++ [.begun txnID]
          clock := startTime + 1 }
    else none
  | .addMessage txnID topic partition data =>
    some (s.returned (s.tm.addMessage txnID topic partition data)
      fun _ => .added txnID { topic, partition, data })
  | .prepare txnID => some (s.returned (s.tm.prepare txnID) fun _ => .prepared txnID)
  | .commit txnID => some (s.returned (s.tm.commit txnID) fun messages => .committed txnID messages)
  | .rollback txnID => some (s.returned (s.tm.rollback txnID) fun _ => .rolledBack txnID)
  | .cleanupExpired now =>
    let victims := s.tm.transactions.entries.filter fun x => s.tm.Expires now x.2
    some
      { tm := s.tm.cleanupExpired now
        history := s.history ++ victims.map fun x => .expired x.1
        clock := now + 1 }

/-- The part of a history that is about one transaction. -/
def about (txnID : ByteString) (history : List TxnNote) : List TxnNote :=
  history.filter fun note => note.txnID = txnID

/-! ## What a step does to one transaction -/

/-- A transaction changes, and what is noted about it. -/
inductive Change (txnID : ByteString) : Transaction → TxnNote → Transaction → Prop where
  | added (txn : Transaction) (message : TransactionMessage) (h : txn.state = .pending) :
      Change txnID txn (.added txnID message)
        { txn with messages := txn.messages ++ [message] }
  | prepared (txn : Transaction) (h : txn.state = .pending) (hne : txn.messages ≠ []) :
      Change txnID txn (.prepared txnID) { txn with state := .prepared }
  | committed (txn : Transaction) (h : txn.state = .prepared) :
      Change txnID txn (.committed txnID txn.messages) { txn with state := .committed }
  | rolledBack (txn : Transaction) (h : txn.state.Open) :
      Change txnID txn (.rolledBack txnID) { txn with state := .rolledBack }
  | expired (txn : Transaction) (h : txn.state.Open) :
      Change txnID txn (.expired txnID) { txn with state := .rolledBack }

/-- What an event may do to one transaction in the table, and what is noted about it. -/
inductive Happens (tm : TransactionManager) (ev : TxnEvent) (txnID : ByteString) :
    Option Transaction → List TxnNote → Option Transaction → Prop where
  | nothing (found : Option Transaction) : Happens tm ev txnID found [] found
  | change {txn txn' : Transaction} {note : TxnNote} (h : Change txnID txn note txn') :
      Happens tm ev txnID (some txn) [note] (some txn')
  | evicted {order : List (ByteString × Transaction)} {producerID : ByteString}
      {idTime startTime : ℕ} (hev : ev = .beginTransaction order producerID idTime startTime)
      (horder : tm.transactions.Order order)
      (hfull : tm.maxTransactions ≤ tm.transactions.len)
      (hid : txnID = TransactionManager.oldest order) (txn : Transaction) :
      Happens tm ev txnID (some txn) [.evicted txnID] none
  | begun {order : List (ByteString × Transaction)} {producerID : ByteString}
      {idTime startTime : ℕ} (hev : ev = .beginTransaction order producerID idTime startTime)
      (hid : txnID = dashed producerID idTime) (found : Option Transaction) :
      Happens tm ev txnID found [.begun txnID] (some ⟨.pending, [], startTime⟩)
  | replaced {order : List (ByteString × Transaction)} {producerID : ByteString}
      {idTime startTime : ℕ} (hev : ev = .beginTransaction order producerID idTime startTime)
      (hid : txnID = dashed producerID idTime) (txn : Transaction) :
      Happens tm ev txnID (some txn) [.evicted txnID, .begun txnID]
        (some ⟨.pending, [], startTime⟩)

/-- The view of one transaction on an event. -/
def Sees (id : ByteString) (s : TxnProc) (ev : TxnEvent) (t : TxnProc) : Prop :=
  ∃ notes, about id t.history = about id s.history ++ notes ∧
    Happens s.tm ev id (s.tm.transactions.lookup id) notes (t.tm.transactions.lookup id)

variable {maxTransactions expireAfter : ℤ} {s t : TxnProc} {ev : TxnEvent}
  {txnID : ByteString} {tm : TransactionManager}

theorem about_append (l l' : List TxnNote) :
    about txnID (l ++ l') = about txnID l ++ about txnID l' :=
  List.filter_append _ _

theorem mem_about {note : TxnNote} {history : List TxnNote} (h : note ∈ history) :
    note ∈ about note.txnID history :=
  List.mem_filter.mpr ⟨h, decide_eq_true rfl⟩

theorem about_singleton (note : TxnNote) :
    about txnID [note] = if note.txnID = txnID then [note] else [] := by
  by_cases h : note.txnID = txnID
  · rw [if_pos h]
    exact List.filter_cons_of_pos (decide_eq_true h)
  · rw [if_neg h]
    exact List.filter_cons_of_neg (by simpa using h)

/-- Among notes about different transactions, those about one. -/
theorem about_map {ids : List ByteString} (hnodup : ids.Nodup) {note : ByteString → TxnNote}
    (hnote : ∀ id, (note id).txnID = id) :
    about txnID (ids.map note) = if txnID ∈ ids then [note txnID] else [] := by
  have hfilter : about txnID (ids.map note) = (ids.filter fun id => id = txnID).map note := by
    rw [about, List.filter_map]
    congr 2
    funext id
    rw [Function.comp_apply, hnote]
  rw [hfilter, List.filter_eq, hnodup.count]
  split <;> rfl

/-- **Calls**: one that changes a transaction. -/
theorem sees_returned {α : Type} {f : Transaction → Except String (Transaction × α)}
    {note : α → TxnNote}
    (hf : ∀ txn txn' a, f txn = .ok (txn', a) → Change txnID txn (note a) txn')
    (hnote : ∀ a, (note a).txnID = txnID) (id : ByteString) :
    Sees id s ev (s.returned (s.tm.update txnID f) note) := by
  unfold TransactionManager.update
  cases hfound : s.tm.transactions.lookup txnID with
  | none => exact ⟨[], (List.append_nil _).symm, .nothing _⟩
  | some txn =>
    cases hres : f txn with
    | error e =>
      simp only [hres]
      exact ⟨[], (List.append_nil _).symm, .nothing _⟩
    | ok res =>
      obtain ⟨txn', a⟩ := res
      simp only [hres, returned]
      by_cases heq : id = txnID
      · subst heq
        refine ⟨[note a], ?_, ?_⟩
        · rw [about_append, about_singleton, if_pos (hnote a)]
        · rw [hfound, AList.lookup_insert]
          exact .change (hf txn txn' a hres)
      · refine ⟨[], ?_, ?_⟩
        · rw [about_append, about_singleton, if_neg fun h => heq (h.symm.trans (hnote a))]
        · rw [AList.lookup_insert_ne heq]
          exact .nothing _

/-- The sweep rolls back what has expired and leaves the rest. -/
theorem sees_swept {now : ℕ} (hstep : s.step (.cleanupExpired now) = some t) (id : ByteString) :
    Sees id s ev t := by
  cases hstep
  have hlookup : (s.tm.cleanupExpired now).transactions.lookup id =
      (s.tm.transactions.lookup id).map fun txn =>
        if s.tm.Expires now txn then { txn with state := .rolledBack } else txn :=
    GoMap.lookup_mapValues _ _ _
  -- every transaction stands once in the table, so it is rolled back once
  let expired := s.tm.transactions.filter fun _ txn => s.tm.Expires now txn
  have habout : about id (expired.entries.map fun x => .expired x.1) =
      if id ∈ expired.keys then [.expired id] else [] := by
    rw [← about_map (AList.keys_nodup expired) (fun _ => rfl)]
    exact congrArg _ (List.map_map).symm
  have hmem : id ∈ expired.keys ↔
      ∃ txn, s.tm.transactions.lookup id = some txn ∧ s.tm.Expires now txn := by
    rw [← AList.mem_keys, GoMap.mem_iff_exists_lookup]
    refine exists_congr fun txn => ?_
    rw [GoMap.lookup_filter, Option.filter_eq_some_iff, decide_eq_true_eq]
  refine ⟨_, (about_append _ _).trans (congrArg _ habout), ?_⟩
  rw [hlookup]
  split
  · rename_i hin
    obtain ⟨txn, hfound, hexpires⟩ := hmem.mp hin
    rw [hfound, Option.map_some, if_pos hexpires]
    exact .change (.expired txn hexpires.2)
  · rename_i hout
    cases hfound : s.tm.transactions.lookup id with
    | none => exact .nothing none
    | some txn =>
      rw [Option.map_some, if_neg fun hexpires => hout (hmem.mpr ⟨txn, hfound, hexpires⟩)]
      exact .nothing (some txn)

theorem lookup_makeRoom {order : List (ByteString × Transaction)} (id : ByteString) :
    (tm.makeRoom order).transactions.lookup id =
      if tm.maxTransactions ≤ tm.transactions.len ∧ id = TransactionManager.oldest order then none
      else tm.transactions.lookup id := by
  rw [TransactionManager.makeRoom]
  split
  · rename_i hfull
    rw [GoMap.lookup_erase_eq]
    exact if_congr (and_iff_right hfull).symm rfl rfl
  · rename_i hroom
    rw [if_neg fun h => hroom h.1]

/-- The one that is evicted. -/
theorem mem_victims {order : List (ByteString × Transaction)} {id : ByteString} :
    (id ∈ tm.transactions.keys.filter fun victim =>
      victim ∉ (tm.makeRoom order).transactions.keys) ↔
      (∃ txn, tm.transactions.lookup id = some txn) ∧
        tm.maxTransactions ≤ tm.transactions.len ∧ id = TransactionManager.oldest order := by
  rw [List.mem_filter, decide_eq_true_eq, ← AList.mem_keys, ← AList.mem_keys,
    ← AList.lookup_eq_none, lookup_makeRoom, GoMap.mem_iff_exists_lookup]
  refine and_congr_right ?_
  rintro ⟨txn, hfound⟩
  rw [hfound, ite_eq_left_iff]
  exact ⟨fun h => by_contra fun hnot => absurd (h hnot) (Option.some_ne_none txn),
    fun h hnot => absurd h hnot⟩

/-- The others are kept. -/
theorem lookup_makeRoom_of_notMem {order : List (ByteString × Transaction)} {id : ByteString}
    (h : id ∉ tm.transactions.keys.filter fun victim =>
      victim ∉ (tm.makeRoom order).transactions.keys) :
    (tm.makeRoom order).transactions.lookup id = tm.transactions.lookup id := by
  rw [lookup_makeRoom]
  split
  · rename_i hold
    refine (Option.eq_none_iff_forall_ne_some.mpr fun txn hfound => ?_).symm
    exact h (mem_victims.mpr ⟨⟨txn, hfound⟩, hold⟩)
  · rfl

/-- `BeginTransaction` begins one transaction and evicts at most one. -/
theorem sees_begun {order : List (ByteString × Transaction)} {producerID : ByteString}
    {idTime startTime : ℕ}
    (hstep : s.step (.beginTransaction order producerID idTime startTime) = some t)
    (id : ByteString) :
    Sees id s (.beginTransaction order producerID idTime startTime) t := by
  unfold step at hstep
  dsimp only at hstep
  split at hstep
  · rename_i horder
    cases hstep
    let victims := s.tm.transactions.keys.filter fun victim =>
      victim ∉ (s.tm.makeRoom order).transactions.keys
    have hnodup : victims.Nodup := (AList.keys_nodup _).filter _
    refine ⟨about id (victims.map .evicted) ++ about id [.begun (dashed producerID idTime)], ?_, ?_⟩
    · rw [← about_append, ← about_append]
      exact congrArg _ (List.append_assoc _ _ _)
    · have hbegun : about id [.begun (dashed producerID idTime)] =
          if id = dashed producerID idTime then [.begun (dashed producerID idTime)] else [] :=
        (about_singleton _).trans (if_congr eq_comm rfl rfl)
      rw [about_map hnodup fun _ => rfl, hbegun, TransactionManager.beginTransaction,
        GoMap.lookup_insert_eq]
      by_cases hvictim : id ∈ victims
      · obtain ⟨⟨txn, hfound⟩, hfull, hid⟩ := mem_victims.mp hvictim
        rw [if_pos hvictim, lookup_makeRoom, if_pos (And.intro hfull hid), hfound]
        by_cases hnew : id = dashed producerID idTime
        · rw [if_pos hnew, if_pos hnew, ← hnew]
          exact .replaced rfl hnew txn
        · rw [if_neg hnew, if_neg hnew]
          exact .evicted rfl horder hfull hid txn
      · rw [if_neg hvictim, lookup_makeRoom_of_notMem hvictim]
        by_cases hnew : id = dashed producerID idTime
        · rw [if_pos hnew, if_pos hnew, ← hnew]
          exact .begun rfl hnew _
        · rw [if_neg hnew, if_neg hnew]
          exact .nothing _
  · cases hstep

/-- An event does one of the five things to each transaction. -/
theorem sees_of_step (hstep : s.step ev = some t) (id : ByteString) : Sees id s ev t := by
  cases ev with
  | beginTransaction order producerID idTime startTime => exact sees_begun hstep id
  | cleanupExpired now => exact sees_swept hstep id
  | addMessage txnID topic partition data =>
    cases hstep
    refine sees_returned ?_ ?_ id
    · intro txn txn' a hf
      split at hf
      · cases hf
      · rename_i hstate
        cases hf
        exact .added txn _ (not_not.mp hstate)
    · exact fun _ => rfl
  | prepare txnID =>
    cases hstep
    refine sees_returned ?_ ?_ id
    · intro txn txn' a hf
      split_ifs at hf with hstate hempty
      cases hf
      exact .prepared txn (not_not.mp hstate) fun h => hempty (List.length_eq_zero_iff.mpr h)
    · exact fun _ => rfl
  | commit txnID =>
    cases hstep
    refine sees_returned ?_ ?_ id
    · intro txn txn' a hf
      split at hf
      · cases hf
      · rename_i hstate
        cases hf
        exact .committed txn (not_not.mp hstate)
    · exact fun _ => rfl
  | rollback txnID =>
    cases hstep
    refine sees_returned ?_ ?_ id
    · intro txn txn' a hf
      split at hf
      · cases hf
      · rename_i hstate
        cases hf
        exact .rolledBack txn (or_iff_not_and_not.mpr hstate)
    · exact fun _ => rfl

/-! ## The life of a transaction -/

/-- What may happen to a transaction in the table, in this order, and its state and messages
afterwards. -/
inductive Life (txnID : ByteString) :
    List TxnNote → TransactionState → List TransactionMessage → Prop where
  | begun : Life txnID [.begun txnID] .pending []
  | added {notes : List TxnNote} {messages : List TransactionMessage}
      (h : Life txnID notes .pending messages) (message : TransactionMessage) :
      Life txnID (notes ++ [.added txnID message]) .pending (messages ++ [message])
  | prepared {notes : List TxnNote} {messages : List TransactionMessage}
      (h : Life txnID notes .pending messages) (hne : messages ≠ []) :
      Life txnID (notes ++ [.prepared txnID]) .prepared messages
  | committed {notes : List TxnNote} {messages : List TransactionMessage}
      (h : Life txnID notes .prepared messages) :
      Life txnID (notes ++ [.committed txnID messages]) .committed messages
  | rolledBack {notes : List TxnNote} {messages : List TransactionMessage}
      {state : TransactionState} (h : Life txnID notes state messages) (hopen : state.Open) :
      Life txnID (notes ++ [.rolledBack txnID]) .rolledBack messages
  | expired {notes : List TxnNote} {messages : List TransactionMessage}
      {state : TransactionState} (h : Life txnID notes state messages) (hopen : state.Open) :
      Life txnID (notes ++ [.expired txnID]) .rolledBack messages

/-- A transaction that was committed: begun, given its messages, prepared, committed. -/
def committedLife (txnID : ByteString) (messages : List TransactionMessage) : List TxnNote :=
  .begun txnID :: messages.map (.added txnID) ++ [.prepared txnID, .committed txnID messages]

theorem Life.ne_nil {notes : List TxnNote} {state : TransactionState}
    {messages : List TransactionMessage} (h : Life txnID notes state messages) : notes ≠ [] := by
  cases h <;> simp

theorem Life.eq_of_pending {notes : List TxnNote} {state : TransactionState}
    {messages : List TransactionMessage} (h : Life txnID notes state messages)
    (hstate : state = .pending) : notes = .begun txnID :: messages.map (.added txnID) := by
  induction h with
  | begun => rfl
  | added _ message ih =>
    rw [ih rfl, List.map_append, List.cons_append]
    rfl
  | prepared | committed | rolledBack | expired => cases hstate

theorem Life.eq_of_prepared {notes : List TxnNote} {messages : List TransactionMessage}
    (h : Life txnID notes .prepared messages) :
    messages ≠ [] ∧
      notes = .begun txnID :: messages.map (.added txnID) ++ [.prepared txnID] := by
  cases h with
  | prepared h hne => exact ⟨hne, by rw [h.eq_of_pending rfl]⟩

theorem Life.eq_of_committed {notes : List TxnNote} {messages : List TransactionMessage}
    (h : Life txnID notes .committed messages) :
    messages ≠ [] ∧ notes = committedLife txnID messages := by
  cases h with
  | committed h =>
    obtain ⟨hne, rfl⟩ := h.eq_of_prepared
    refine ⟨hne, ?_⟩
    rw [committedLife, List.append_assoc]
    rfl

/-- Only a transaction that is committed has a commit in its life. -/
theorem Life.commits {notes : List TxnNote} {state : TransactionState}
    {messages : List TransactionMessage} (h : Life txnID notes state messages) :
    notes.filter TxnNote.isCommit =
      if state = .committed then [.committed txnID messages] else [] := by
  have hopen : ∀ state : TransactionState, state.Open → state ≠ .committed := by
    rintro _ (rfl | rfl) <;> decide
  induction h with
  | begun => rfl
  | added _ _ ih => rw [List.filter_append, ih]; rfl
  | prepared _ _ ih => rw [List.filter_append, ih]; rfl
  | committed _ ih => rw [List.filter_append, ih]; rfl
  | rolledBack _ hstate ih => rw [List.filter_append, ih, if_neg (hopen _ hstate)]; rfl
  | expired _ hstate ih => rw [List.filter_append, ih, if_neg (hopen _ hstate)]; rfl

/-- A change of a transaction goes on with its life. -/
theorem Life.change {notes : List TxnNote} {txn txn' : Transaction} {note : TxnNote}
    (h : Life txnID notes txn.state txn.messages) (hchange : Change txnID txn note txn') :
    Life txnID (notes ++ [note]) txn'.state txn'.messages := by
  cases hchange with
  | added message hstate =>
    rw [hstate] at h ⊢
    exact h.added message
  | prepared hstate hne =>
    rw [hstate] at h
    exact h.prepared hne
  | committed hstate =>
    rw [hstate] at h
    exact h.committed
  | rolledBack hopen => exact h.rolledBack hopen
  | expired hopen => exact h.expired hopen

/-- A history of a transaction, whether it is still in the table or not. -/
inductive Lived (txnID : ByteString) : Option Transaction → List TxnNote → Prop where
  | unborn : Lived txnID none []
  | alive {txn : Transaction} {notes : List TxnNote}
      (h : Life txnID notes txn.state txn.messages) : Lived txnID (some txn) notes
  | gone {state : TransactionState} {messages : List TransactionMessage} {notes : List TxnNote}
      (h : Life txnID notes state messages) : Lived txnID none (notes ++ [.evicted txnID])

theorem Lived.eq_none {found : Option Transaction} {notes : List TxnNote}
    (h : Lived txnID found notes) (hnotes : notes = []) : found = none := by
  cases h with
  | unborn => rfl
  | alive h => exact absurd hnotes h.ne_nil
  | gone h => exact absurd hnotes (by simp)

/-- A transaction is committed at most once, with the messages it was prepared with. -/
theorem Lived.commits {found : Option Transaction} {notes : List TxnNote}
    (h : Lived txnID found notes) :
    notes.filter TxnNote.isCommit = [] ∨
      ∃ messages rest, notes.filter TxnNote.isCommit = [.committed txnID messages] ∧
        messages ≠ [] ∧ notes = committedLife txnID messages ++ rest ∧
        (rest = [] ∨ rest = [.evicted txnID]) := by
  have hlife : ∀ {notes state messages}, Life txnID notes state messages →
      notes.filter TxnNote.isCommit = [] ∨
        notes.filter TxnNote.isCommit = [.committed txnID messages] ∧ messages ≠ [] ∧
          notes = committedLife txnID messages := by
    intro notes state messages h
    rw [h.commits]
    split
    · rename_i hstate
      subst hstate
      exact Or.inr ⟨rfl, h.eq_of_committed⟩
    · exact Or.inl rfl
  cases h with
  | unborn => exact Or.inl rfl
  | alive h =>
    refine (hlife h).imp_right ?_
    rintro ⟨hcommit, hne, hnotes⟩
    exact ⟨_, [], hcommit, hne, by rw [hnotes, List.append_nil], Or.inl rfl⟩
  | gone h =>
    rw [List.filter_append, List.filter_cons_of_neg (by simp [TxnNote.isCommit]), List.filter_nil,
      List.append_nil]
    refine (hlife h).imp_right ?_
    rintro ⟨hcommit, hne, hnotes⟩
    exact ⟨_, _, hcommit, hne, by rw [hnotes], Or.inr rfl⟩

/-- The clock readings increase. -/
def Ticks (s : TxnProc) (ev : TxnEvent) (_ : TxnProc) : Prop :=
  match ev with
  | .beginTransaction _ _ idTime startTime => s.clock ≤ idTime ∧ idTime < startTime
  | .cleanupExpired now => s.clock ≤ now
  | _ => True

instance (s : TxnProc) (ev : TxnEvent) (t : TxnProc) : Decidable (s.Ticks ev t) :=
  match ev with
  | .beginTransaction _ _ idTime startTime =>
    inferInstanceAs (Decidable (s.clock ≤ idTime ∧ idTime < startTime))
  | .cleanupExpired now => inferInstanceAs (Decidable (s.clock ≤ now))
  | .addMessage _ _ _ _ | .prepare _ | .commit _ | .rollback _ =>
    inferInstanceAs (Decidable True)

structure LifeInv (s : TxnProc) : Prop where
  lived : ∀ txnID, Lived txnID (s.tm.transactions.lookup txnID) (about txnID s.history)
  /-- Ids are made of readings of the past. -/
  past : ∀ txnID, about txnID s.history ≠ [] →
    ∃ producerID reading, txnID = dashed producerID (reading : ℕ) ∧ reading < s.clock

theorem LifeInv.init : LifeInv (new maxTransactions expireAfter) where
  lived _ := .unborn
  past _ h := absurd rfl h

/-- **Ids are new**, whatever the names of the producers. -/
theorem LifeInv.fresh (h : LifeInv s) {producerID : ByteString} {idTime : ℕ}
    (hclock : s.clock ≤ idTime) : about (dashed producerID idTime) s.history = [] := by
  by_contra hne
  obtain ⟨producerID', reading, heq, hlt⟩ := h.past _ hne
  have hreading := (dashed_inj (Int.natCast_nonneg _) (Int.natCast_nonneg _) heq).2
  omega

/-- What happens goes on with a life. -/
theorem Lived.happens {found found' : Option Transaction} {notes more : List TxnNote}
    (h : Lived txnID found notes)
    (hfresh : ∀ order producerID idTime startTime,
      ev = .beginTransaction order producerID idTime startTime →
      txnID = dashed producerID idTime → notes = [])
    (hhappens : Happens tm ev txnID found more found') : Lived txnID found' (notes ++ more) := by
  cases hhappens with
  | nothing => rwa [List.append_nil]
  | change hchange =>
    cases h with
    | alive h => exact .alive (h.change hchange)
  | evicted =>
    cases h with
    | alive h => exact .gone h
  | begun hev hid =>
    rw [hfresh _ _ _ _ hev hid]
    exact .alive .begun
  | replaced hev hid =>
    exact absurd (h.eq_none (hfresh _ _ _ _ hev hid)) (Option.some_ne_none _)

theorem clock_returned {α : Type} (res : TransactionManager × Except String α)
    (note : α → TxnNote) : (s.returned res note).clock = s.clock := by
  unfold returned
  split <;> rfl

theorem clock_begun {order : List (ByteString × Transaction)} {producerID : ByteString}
    {idTime startTime : ℕ}
    (hstep : s.step (.beginTransaction order producerID idTime startTime) = some t) :
    t.clock = startTime + 1 := by
  unfold step at hstep
  dsimp only at hstep
  split at hstep
  · rw [← Option.some.inj hstep]
  · cases hstep

/-- The clock goes on. -/
theorem clock_le (hticks : s.Ticks ev t) (hstep : s.step ev = some t) : s.clock ≤ t.clock := by
  cases ev with
  | beginTransaction order producerID idTime startTime =>
    have hnow : s.clock ≤ idTime ∧ idTime < startTime := hticks
    rw [clock_begun hstep]
    omega
  | cleanupExpired now =>
    cases hstep
    exact Nat.le_succ_of_le hticks
  | addMessage | prepare | commit | rollback =>
    cases hstep
    exact (clock_returned _ _).ge

theorem LifeInv.fresh_of_step (h : LifeInv s) (hticks : s.Ticks ev t) (txnID : ByteString) :
    ∀ order producerID idTime startTime, ev = .beginTransaction order producerID idTime startTime →
      txnID = dashed producerID idTime → about txnID s.history = [] := by
  rintro order producerID idTime startTime rfl rfl
  exact h.fresh hticks.1

/-- **Step**: whatever happens, the history of every id is a life. -/
theorem LifeInv.step (h : LifeInv s) (hticks : s.Ticks ev t) (hstep : s.step ev = some t) :
    LifeInv t where
  lived txnID := by
    obtain ⟨more, habout, hhappens⟩ := sees_of_step hstep txnID
    rw [habout]
    exact (h.lived txnID).happens (h.fresh_of_step hticks txnID) hhappens
  past txnID hne := by
    obtain ⟨more, habout, hhappens⟩ := sees_of_step hstep txnID
    by_cases hold : about txnID s.history = []
    · -- nothing happens to a transaction before it is begun
      have hnone := (h.lived txnID).eq_none hold
      rw [habout, hold] at hne
      rw [hnone] at hhappens
      generalize t.tm.transactions.lookup txnID = found' at hhappens
      cases hhappens with
      | nothing => exact absurd rfl hne
      | begun hev hid =>
        subst hev
        refine ⟨_, _, hid, ?_⟩
        have hnow : s.clock ≤ _ ∧ _ < _ := hticks
        rw [clock_begun hstep]
        omega
    · obtain ⟨producerID, reading, hid, hlt⟩ := h.past txnID hold
      exact ⟨producerID, reading, hid, hlt.trans_le (clock_le hticks hstep)⟩

/-- With a clock that moves on, the history of every id is one life. -/
theorem LifeInv.of_run (hrun : Run TxnProc.step Ticks (new maxTransactions expireAfter) s) :
    LifeInv s := by
  refine hrun.invariant LifeInv.init ?_
  exact fun _ _ _ h hticks hstep => h.step hticks hstep

/-- The moves of a transaction. -/
def Moves : TransactionState → TransactionState → Prop
  | .pending, .prepared | .prepared, .committed => True
  | .pending, .rolledBack | .prepared, .rolledBack => True
  | _, _ => False

theorem Change.moves {txn txn' : Transaction} {note : TxnNote}
    (h : Change txnID txn note txn') : txn'.state = txn.state ∨ Moves txn.state txn'.state := by
  have hopen : ∀ state : TransactionState, state.Open → Moves state .rolledBack := by
    rintro _ (rfl | rfl) <;> trivial
  cases h with
  | added => exact Or.inl rfl
  | prepared hstate => exact Or.inr (by rw [hstate]; trivial)
  | committed hstate => exact Or.inr (by rw [hstate]; trivial)
  | rolledBack hstate => exact Or.inr (hopen _ hstate)
  | expired hstate => exact Or.inr (hopen _ hstate)

theorem LifeInv.moves (h : LifeInv s) (hticks : s.Ticks ev t) (hstep : s.step ev = some t)
    {txn txn' : Transaction} (hfound : s.tm.transactions.lookup txnID = some txn)
    (hfound' : t.tm.transactions.lookup txnID = some txn') :
    txn'.state = txn.state ∨ Moves txn.state txn'.state := by
  obtain ⟨more, -, hhappens⟩ := sees_of_step hstep txnID
  have hfresh := h.fresh_of_step hticks txnID
  have hnotes := (h.lived txnID).eq_none
  rw [hfound] at hnotes
  rw [hfound, hfound'] at hhappens
  cases hhappens with
  | nothing => exact Or.inl rfl
  | change hchange => exact hchange.moves
  | begun hev hid => exact absurd (hnotes (hfresh _ _ _ _ hev hid)) (Option.some_ne_none _)
  | replaced hev hid => exact absurd (hnotes (hfresh _ _ _ _ hev hid)) (Option.some_ne_none _)

theorem LifeInv.appears (h : LifeInv s) (hticks : s.Ticks ev t) (hstep : s.step ev = some t)
    {txn' : Transaction} (hfound : s.tm.transactions.lookup txnID = none)
    (hfound' : t.tm.transactions.lookup txnID = some txn') :
    txn'.state = .pending ∧ about txnID s.history = [] := by
  obtain ⟨more, -, hhappens⟩ := sees_of_step hstep txnID
  rw [hfound, hfound'] at hhappens
  cases hhappens with
  | begun hev hid => exact ⟨rfl, h.fresh_of_step hticks txnID _ _ _ _ hev hid⟩

/-- **The life of a transaction.** With increasing clock readings the state of a transaction
only moves from PENDING to PREPARED to COMMITTED, or from one of the first two to
ROLLED_BACK, and an id is never given twice. `Commit` succeeds at most once for an id. It
returns messages, and these are the ones added to the transaction, before it was
prepared. -/
theorem transaction_lifecycle (hrun : Run step Ticks (new maxTransactions expireAfter) s) :
    (∀ ev t, s.Ticks ev t → s.step ev = some t → ∀ txnID,
      (∀ txn txn', s.tm.transactions.lookup txnID = some txn →
        t.tm.transactions.lookup txnID = some txn' →
        txn'.state = txn.state ∨ Moves txn.state txn'.state) ∧
      (∀ txn', s.tm.transactions.lookup txnID = none →
        t.tm.transactions.lookup txnID = some txn' →
        txn'.state = .pending ∧ about txnID s.history = [])) ∧
    ∀ txnID, (about txnID s.history).countP TxnNote.isCommit ≤ 1 ∧
      ∀ messages, .committed txnID messages ∈ s.history → messages ≠ [] ∧
        ∃ rest, about txnID s.history =
            .begun txnID :: messages.map (.added txnID) ++
              [.prepared txnID, .committed txnID messages] ++ rest ∧
          (rest = [] ∨ rest = [.evicted txnID]) := by
  have h := LifeInv.of_run hrun
  refine ⟨fun ev t hticks hstep txnID => ⟨?_, ?_⟩, fun txnID => ?_⟩
  · exact fun txn txn' hfound hfound' => h.moves hticks hstep hfound hfound'
  · exact fun txn' hfound hfound' => h.appears hticks hstep hfound hfound'
  · have hmem : ∀ messages, .committed txnID messages ∈ s.history →
        .committed txnID messages ∈ (about txnID s.history).filter TxnNote.isCommit :=
      fun messages hin => List.mem_filter.mpr ⟨mem_about hin, rfl⟩
    rw [List.countP_eq_length_filter]
    rcases (h.lived txnID).commits with hnone | ⟨committed, rest, hcommits, hne, hnotes, hrest⟩
    · rw [hnone] at hmem ⊢
      exact ⟨Nat.zero_le 1, fun messages hin => absurd (hmem messages hin) List.not_mem_nil⟩
    · rw [hcommits] at hmem ⊢
      refine ⟨le_rfl, fun messages hin => ?_⟩
      cases List.mem_singleton.mp (hmem messages hin)
      exact ⟨hne, rest, hnotes, hrest⟩

/-- A producer with a dash in its name, and one without; the first transaction is committed
and evicted. -/
def twoLives : List TxnEvent :=
  [.beginTransaction [] [112, 45] 5 6, .addMessage (dashed [112, 45] 5) "t" 0 [1],
    .addMessage (dashed [112, 45] 5) "u" 1 [2], .prepare (dashed [112, 45] 5),
    .commit (dashed [112, 45] 5),
    .beginTransaction
      [(dashed [112, 45] 5, ⟨.committed, [⟨"t", 0, [1], 0⟩, ⟨"u", 1, [2], 0⟩], 6⟩)] [112] 7 8]

theorem transaction_lifecycle_two :
    ∃ s, Run step Ticks (new 1 1000) s ∧ s.clock = 9 ∧
      .committed (dashed [112, 45] 5) [⟨"t", 0, [1], 0⟩, ⟨"u", 1, [2], 0⟩] ∈ s.history ∧
      (about (dashed [112, 45] 5) s.history).countP TxnNote.isCommit ≤ 1 := by
  obtain ⟨s, hrun, hclock, hmem⟩ : ∃ s, Run step Ticks (new 1 1000) s ∧ s.clock = 9 ∧
      .committed (dashed [112, 45] 5) [⟨"t", 0, [1], 0⟩, ⟨"u", 1, [2], 0⟩] ∈ s.history :=
    exists_run_of_execWith twoLives (by decide +kernel)
  exact ⟨s, hrun, hclock, hmem, ((transaction_lifecycle hrun).2 _).1⟩

/-! ## Prepared transactions -/

/-- The transaction has its outcome. -/
def Settles (_ : TxnNote) : TxnNote → Prop
  | .committed _ _ | .rolledBack _ | .expired _ => True
  | _ => False

/-- `BeginTransaction` is not called in a full table in which one of the oldest transactions
is PREPARED, nor for the id of a PREPARED transaction. -/
def Spares (s : TxnProc) (ev : TxnEvent) (_ : TxnProc) : Prop :=
  match ev with
  | .beginTransaction _ producerID idTime _ =>
    ∀ x ∈ s.tm.transactions.entries, x.2.state = .prepared →
      x.1 ≠ dashed producerID idTime ∧
      (s.tm.maxTransactions ≤ s.tm.transactions.len →
        ∃ y ∈ s.tm.transactions.entries, y.2.startTime < x.2.startTime)
  | _ => True

instance (s : TxnProc) (ev : TxnEvent) (t : TxnProc) : Decidable (s.Spares ev t) :=
  match ev with
  | .beginTransaction _ producerID idTime _ =>
    inferInstanceAs (Decidable (∀ x ∈ s.tm.transactions.entries, x.2.state = .prepared →
      x.1 ≠ dashed producerID idTime ∧
      (s.tm.maxTransactions ≤ s.tm.transactions.len →
        ∃ y ∈ s.tm.transactions.entries, y.2.startTime < x.2.startTime)))
  | .addMessage _ _ _ _ | .prepare _ | .commit _ | .rollback _ | .cleanupExpired _ =>
    inferInstanceAs (Decidable True)

/-- The one that is evicted is as old as any. -/
theorem oldest_le {order : List (ByteString × Transaction)} (horder : tm.transactions.Order order)
    {txn : Transaction}
    (hfound : tm.transactions.lookup (TransactionManager.oldest order) = some txn)
    {id : ByteString} {txn' : Transaction} (hfound' : tm.transactions.lookup id = some txn') :
    txn.startTime ≤ txn'.startTime := by
  have hne : order ≠ [] := List.ne_nil_of_mem (horder.mem_iff.mpr hfound')
  obtain ⟨⟨id', old⟩, hmem, hid, hleast⟩ :=
    @Eviction.oldest_spec _ _ (fun txn : Transaction => sinceZero txn.startTime) order
      (fun x _ => Nat.succ_ne_zero _) hne []
  have hold : tm.transactions.lookup (TransactionManager.oldest order) = some old := by
    rw [TransactionManager.oldest, hid]
    exact horder.mem_iff.mp hmem
  obtain rfl := Option.some.inj (hfound.symm.trans hold)
  exact Nat.le_of_add_le_add_right (hleast _ (horder.mem_iff.mpr hfound'))

/-- A transaction that was prepared and not settled since is still prepared. -/
def PreparedInv (s : TxnProc) : Prop :=
  ∀ txnID, Since Settles (about txnID s.history) (.prepared txnID) →
    ∃ txn, s.tm.transactions.lookup txnID = some txn ∧ txn.state = .prepared

theorem PreparedInv.init : PreparedInv (new maxTransactions expireAfter) :=
  fun _ hsince => absurd hsince not_since_nil

/-- **Step**: only its own calls and the sweep change a prepared transaction. -/
theorem PreparedInv.step (h : PreparedInv s) (hspares : s.Spares ev t)
    (hstep : s.step ev = some t) : PreparedInv t := by
  intro txnID hsince
  obtain ⟨more, habout, hhappens⟩ := sees_of_step hstep txnID
  have hold := h txnID
  rw [habout] at hsince
  generalize hfound : s.tm.transactions.lookup txnID = found at hhappens hold
  generalize t.tm.transactions.lookup txnID = found' at hhappens
  have hback : (∀ note ∈ more, .prepared txnID ≠ note) →
      ∃ txn, found = some txn ∧ txn.state = .prepared :=
    fun hne => hold ((since_append_iff hne).mp hsince).1
  cases hhappens with
  | nothing =>
    rw [List.append_nil] at hsince
    exact hold hsince
  | change hchange =>
    rcases since_concat.mp hsince with heq | ⟨hsince, hnot⟩
    · subst heq
      cases hchange with
      | prepared => exact ⟨_, rfl, rfl⟩
    · obtain ⟨txn, heq, hstate⟩ := hold hsince
      cases heq
      cases hchange with
      | added => exact ⟨_, rfl, hstate⟩
      | prepared => exact ⟨_, rfl, rfl⟩
      | committed | rolledBack | expired => exact absurd trivial hnot
  | evicted hev horder hfull hid txn =>
    subst hev
    obtain ⟨_, heq, hstate⟩ := hback (by simp)
    cases heq
    -- `Spares`: some other transaction is older
    obtain ⟨y, hy, hlt⟩ := (hspares ⟨txnID, txn⟩ (AList.mem_lookup_iff.mp hfound) hstate).2 hfull
    have hle := oldest_le horder (hid ▸ hfound) (AList.mem_lookup_iff.mpr hy)
    exact absurd hlt (not_lt.mpr hle)
  | begun hev hid found =>
    subst hev
    obtain ⟨txn, heq, hstate⟩ := hback (by simp)
    subst heq
    exact absurd hid (hspares ⟨txnID, txn⟩ (AList.mem_lookup_iff.mp hfound) hstate).1
  | replaced hev hid txn =>
    subst hev
    obtain ⟨_, heq, hstate⟩ := hback (by simp)
    cases heq
    exact absurd hid (hspares ⟨txnID, txn⟩ (AList.mem_lookup_iff.mp hfound) hstate).1

theorem commit_of_prepared {txn : Transaction}
    (hfound : tm.transactions.lookup txnID = some txn) (hstate : txn.state = .prepared) :
    (tm.commit txnID).2 = .ok txn.messages := by
  rw [TransactionManager.commit, TransactionManager.update, hfound]
  dsimp only
  rw [if_neg (not_not.mpr hstate)]

/-- **Prepared transactions can be committed.** In every run in which `BeginTransaction`
spares the PREPARED transactions, `Commit` succeeds at any time after `Prepare` did, unless
the transaction was committed, rolled back or expired in the meantime. -/
theorem prepared_committable (hrun : Run step Spares (new maxTransactions expireAfter) s)
    {before after : List TxnNote} (hprepared : s.history = before ++ .prepared txnID :: after)
    (hcommit : ∀ messages, .committed txnID messages ∉ after)
    (hrollback : .rolledBack txnID ∉ after) (hexpired : .expired txnID ∉ after) :
    ∃ messages, (s.tm.commit txnID).2 = .ok messages := by
  have h : PreparedInv s := by
    refine hrun.invariant PreparedInv.init ?_
    exact fun _ _ _ h hspares hstep => h.step hspares hstep
  have hsince : Since Settles (about txnID s.history) (.prepared txnID) := by
    refine ⟨about txnID before, about txnID after, ?_, fun note hnote hsettles => ?_⟩
    · rw [hprepared, about_append]
      exact congrArg _ (List.filter_cons_of_pos (decide_eq_true rfl))
    · obtain ⟨hmem, hid⟩ := List.mem_filter.mp hnote
      obtain rfl := of_decide_eq_true hid
      cases note with
      | committed _ messages => exact hcommit messages hmem
      | rolledBack => exact hrollback hmem
      | expired => exact hexpired hmem
      | begun | added | prepared | evicted => exact hsettles
  obtain ⟨txn, hfound, hstate⟩ := h txnID hsince
  exact ⟨txn.messages, commit_of_prepared hfound hstate⟩

/-- Producer `p` prepares a transaction while there is room, and another one begins. -/
def preparedWithRoom : List TxnEvent :=
  [.beginTransaction [] [112] 5 6, .addMessage (dashed [112] 5) "t" 0 [1],
    .prepare (dashed [112] 5),
    .beginTransaction [(dashed [112] 5, ⟨.prepared, [⟨"t", 0, [1], 0⟩], 6⟩)] [113] 7 8]

theorem prepared_committable_two :
    ∃ s : TxnProc, s.tm.maxTransactions = 2 ∧ s.tm.transactions.len = 2 ∧
      ∃ messages, (s.tm.commit (dashed [112] 5)).2 = .ok messages := by
  obtain ⟨s, hrun, hmax, hlen, hhistory⟩ : ∃ s, Run step Spares (new 2 1000) s ∧
      s.tm.maxTransactions = 2 ∧ s.tm.transactions.len = 2 ∧
      s.history = [.begun (dashed [112] 5), .added (dashed [112] 5) ⟨"t", 0, [1], 0⟩] ++
        .prepared (dashed [112] 5) :: [.begun (dashed [113] 7)] :=
    exists_run_of_execWith preparedWithRoom (by decide +kernel)
  exact ⟨s, hmax, hlen, prepared_committable hrun hhistory (by simp) (by simp) (by simp)⟩

/-- A table for one: the transaction of `p` is prepared, `q` begins one and the first is
gone. -/
theorem prepared_evicted :
    ∃ s t : TxnProc, Run step (fun _ _ _ => True) (new 1 1000) s ∧
      s.step (.beginTransaction [(dashed [112] 5, ⟨.prepared, [⟨"t", 0, [1], 0⟩], 6⟩)] [113] 7 8) =
        some t ∧
      s.history.getLast? = some (.prepared (dashed [112] 5)) ∧
      t.history = s.history ++ [.evicted (dashed [112] 5), .begun (dashed [113] 7)] ∧
      (s.tm.commit (dashed [112] 5)).2 = .ok [⟨"t", 0, [1], 0⟩] ∧
      (t.tm.commit (dashed [112] 5)).2 = .error "transaction p-5 not found" :=
  exists_last_step_of_execWith
    [TxnEvent.beginTransaction [] [112] 5 6, .addMessage (dashed [112] 5) "t" 0 [1],
      .prepare (dashed [112] 5)]
    (.beginTransaction [(dashed [112] 5, ⟨.prepared, [⟨"t", 0, [1], 0⟩], 6⟩)] [113] 7 8)
    (by decide +kernel)

end TxnProc

end DistributedMQ.Broker
