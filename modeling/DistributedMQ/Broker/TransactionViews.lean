import DistributedMQ.Broker.TransactionManager
import Mathlib.Algebra.BigOperators.Group.Finset.Basic

/-!
# The two tables of transactions (`transaction/transaction.go` lines 38–235)

The manager has a pointer to each transaction in two places: in `transactions` under its id, and
in the list of its producer in `pendingTxns`. `GetTransaction` and `GetActiveTransactions` look
into the first one, `GetProducerTransactions` into the second. Here the transactions are records
on a heap, so that both tables see the same change.

- `Abstracts`: without the heap and the lists this is `TransactionManager`;
  `exists_value_run` follows it through any calls.
- `TablesInv`: the lists have every transaction that was ever begun.
- `transaction_views_agree`: the two tables agree as long as `BeginTransaction` evicts no
  transaction that is PENDING or PREPARED; after such a step they do not.
- `evicted_still_listed`: the smallest case.
-/

namespace DistributedMQ.Broker

open Raft Machine Naming

/-- A `Transaction` with the two fields that never change. -/
structure TransactionRecord where
  id : ByteString
  producerID : ByteString
  txn : Transaction
deriving DecidableEq, Repr

def TransactionRecord.key (r : TransactionRecord) : ByteString × ByteString := (r.id, r.producerID)

structure TransactionTables where
  /-- The transactions that were ever begun; a pointer to one is its position. -/
  records : List TransactionRecord := []
  transactions : GoMap ByteString ℕ := ∅
  pendingTxns : GoMap ByteString (List ℕ) := ∅
  maxTransactions : ℤ
  expireAfter : ℤ

/-! The checks of the calls that change one transaction, and what becomes of it. -/

namespace Transaction

def addMessage (topic : String) (partition : ℤ) (data : List UInt8) (txn : Transaction) :
    Except String (Transaction × Unit) :=
  if txn.state ≠ .pending then
    .error s!"cannot add message to transaction in state {txn.state.text}"
  else .ok ({ txn with messages := txn.messages ++ [{ topic, partition, data }] }, ())

def prepare (txn : Transaction) : Except String (Transaction × Unit) :=
  if txn.state ≠ .pending then
    .error s!"cannot prepare transaction in state {txn.state.text}"
  else if txn.messages.length = 0 then .error "cannot prepare empty transaction"
  else .ok ({ txn with state := .prepared }, ())

def commit (txn : Transaction) : Except String (Transaction × List TransactionMessage) :=
  if txn.state ≠ .prepared then
    .error s!"cannot commit transaction in state {txn.state.text}"
  else .ok ({ txn with state := .committed }, txn.messages)

def rollback (txn : Transaction) : Except String (Transaction × Unit) :=
  if txn.state ≠ .pending ∧ txn.state ≠ .prepared then
    .error s!"cannot rollback transaction in state {txn.state.text}"
  else .ok ({ txn with state := .rolledBack }, ())

end Transaction

namespace TransactionTables

/-- `GetTransaction`: the pointer that it returns. -/
def getTransaction (tb : TransactionTables) (txnID : ByteString) : Option ℕ :=
  tb.transactions.lookup txnID

/-- The transaction behind a pointer is PENDING or PREPARED. -/
def IsOpen (tb : TransactionTables) (p : ℕ) : Prop :=
  (tb.records[p]?).any (fun r => decide r.txn.state.Open) = true

instance (tb : TransactionTables) : DecidablePred tb.IsOpen :=
  fun _ => inferInstanceAs (Decidable (_ = true))

def getProducerTransactions (tb : TransactionTables) (producerID : ByteString) : List ℕ :=
  match tb.pendingTxns.lookup producerID with
  | none => []
  | some txns => txns.filter fun p => tb.IsOpen p

def getActiveTransactions (tb : TransactionTables) : ℕ :=
  tb.transactions.entries.countP fun x => tb.IsOpen x.2

/-- What the table holds under an id, and where. -/
def find (tb : TransactionTables) (txnID : ByteString) : Option (ℕ × TransactionRecord) :=
  (tb.getTransaction txnID).bind fun p => (tb.records[p]?).map fun r => (p, r)

/-- An order in which Go may range over `transactions`. -/
def Order (tb : TransactionTables) (order : List (ByteString × Transaction)) : Prop :=
  order.Perm (tb.transactions.keys.filterMap fun id => (tb.find id).map fun x => (id, x.2.txn))

instance (tb : TransactionTables) (order : List (ByteString × Transaction)) :
    Decidable (tb.Order order) :=
  inferInstanceAs (Decidable (List.Perm _ _))

/-- A transaction is evicted if there are too many: it is deleted from one of the tables. -/
def makeRoom (tb : TransactionTables) (order : List (ByteString × Transaction)) :
    TransactionTables :=
  if tb.maxTransactions ≤ tb.transactions.len then
    { tb with transactions := tb.transactions.erase (TransactionManager.oldest order) }
  else tb

def beginTransaction (tb : TransactionTables) (order : List (ByteString × Transaction))
    (producerID : ByteString) (idTime startTime : ℕ) : TransactionTables × ByteString :=
  let tb := tb.makeRoom order
  let txnID := dashed producerID idTime
  let txn := tb.records.length
  ({ tb with
     records := tb.records ++
       [{ id := txnID, producerID, txn := { state := .pending, messages := [], startTime } }]
     transactions := tb.transactions.insert txnID txn
     pendingTxns :=
       tb.pendingTxns.insert producerID ((tb.pendingTxns.lookup producerID).getD [] ++ [txn]) },
    txnID)

/-- The calls that change one transaction: through the pointer in `transactions`. -/
def update {α : Type} (tb : TransactionTables) (txnID : ByteString)
    (f : Transaction → Except String (Transaction × α)) : TransactionTables × Except String α :=
  match tb.find txnID with
  | none => (tb, .error s!"transaction {text txnID} not found")
  | some (p, r) =>
    match f r.txn with
    | .error e => (tb, .error e)
    | .ok (txn, a) => ({ tb with records := tb.records.set p { r with txn } }, .ok a)

def addMessage (tb : TransactionTables) (txnID : ByteString) (topic : String) (partition : ℤ)
    (data : List UInt8) : TransactionTables × Except String Unit :=
  tb.update txnID (Transaction.addMessage topic partition data)

def prepare (tb : TransactionTables) (txnID : ByteString) :
    TransactionTables × Except String Unit :=
  tb.update txnID Transaction.prepare

def commit (tb : TransactionTables) (txnID : ByteString) :
    TransactionTables × Except String (List TransactionMessage) :=
  tb.update txnID Transaction.commit

def rollback (tb : TransactionTables) (txnID : ByteString) :
    TransactionTables × Except String Unit :=
  tb.update txnID Transaction.rollback

/-- The body of the loop of `cleanupExpired`. -/
def sweep (tb : TransactionTables) (now : ℕ) (r : TransactionRecord) : TransactionRecord :=
  if tb.expireAfter < (now : ℤ) - r.txn.startTime ∧ r.txn.state.Open then
    { r with txn := { r.txn with state := .rolledBack } }
  else r

/-- A tick of `cleanupExpired`. -/
def cleanupExpired (tb : TransactionTables) (now : ℕ) : TransactionTables :=
  { tb with
    records := tb.transactions.values.foldl (fun records p => records.modify p (tb.sweep now))
      tb.records }

end TransactionTables

/-! ## Runs -/

structure TablesProc where
  tables : TransactionTables
  /-- The clock has not passed this reading yet. -/
  clock : ℕ := 0

namespace TablesProc

/-- `NewTransactionManager`. -/
def new (maxTransactions expireAfter : ℤ) : TablesProc where
  tables := { maxTransactions, expireAfter }

def step (s : TablesProc) : TxnEvent → Option TablesProc
  | .beginTransaction order producerID idTime startTime =>
    if s.tables.Order order then
      some
        { tables := (s.tables.beginTransaction order producerID idTime startTime).1
          clock := startTime + 1 }
    else none
  | .addMessage txnID topic partition data =>
    some { s with tables := (s.tables.addMessage txnID topic partition data).1 }
  | .prepare txnID => some { s with tables := (s.tables.prepare txnID).1 }
  | .commit txnID => some { s with tables := (s.tables.commit txnID).1 }
  | .rollback txnID => some { s with tables := (s.tables.rollback txnID).1 }
  | .cleanupExpired now =>
    some { tables := s.tables.cleanupExpired now, clock := now + 1 }

/-- The clock readings increase. -/
def Ticks (s : TablesProc) (ev : TxnEvent) (_ : TablesProc) : Prop :=
  match ev with
  | .beginTransaction _ _ idTime startTime => s.clock ≤ idTime ∧ idTime < startTime
  | .cleanupExpired now => s.clock ≤ now
  | _ => True

instance (s : TablesProc) (ev : TxnEvent) (t : TablesProc) : Decidable (s.Ticks ev t) :=
  match ev with
  | .beginTransaction _ _ idTime startTime =>
    inferInstanceAs (Decidable (s.clock ≤ idTime ∧ idTime < startTime))
  | .cleanupExpired now => inferInstanceAs (Decidable (s.clock ≤ now))
  | .addMessage _ _ _ _ | .prepare _ | .commit _ | .rollback _ =>
    inferInstanceAs (Decidable True)

/-- `BeginTransaction` evicts no transaction that is PENDING or PREPARED. -/
def SparesOpen (s : TablesProc) (ev : TxnEvent) (_ : TablesProc) : Prop :=
  match ev with
  | .beginTransaction order _ _ _ =>
    s.tables.maxTransactions ≤ s.tables.transactions.len →
      (s.tables.find (TransactionManager.oldest order)).all
        (fun x => decide ¬ x.2.txn.state.Open) = true
  | _ => True

instance (s : TablesProc) (ev : TxnEvent) (t : TablesProc) : Decidable (s.SparesOpen ev t) :=
  match ev with
  | .beginTransaction _ _ _ _ => inferInstanceAs (Decidable (_ → _))
  | .addMessage _ _ _ _ | .prepare _ | .commit _ | .rollback _ | .cleanupExpired _ =>
    inferInstanceAs (Decidable True)

end TablesProc

/-! ## What the calls do to the tables -/

namespace TransactionTables

variable {tb tb' : TransactionTables} {p : ℕ} {r : TransactionRecord} {txnID id : ByteString}

theorem isOpen_iff : tb.IsOpen p ↔ ∃ r, tb.records[p]? = some r ∧ r.txn.state.Open := by
  rw [IsOpen, Option.any_eq_true]
  exact exists_congr fun r => and_congr_right fun _ => decide_eq_true_iff

theorem find_eq_some_iff :
    tb.find id = some (p, r) ↔ tb.getTransaction id = some p ∧ tb.records[p]? = some r := by
  rw [find, Option.bind_eq_some_iff]
  constructor
  · rintro ⟨q, hq, hmap⟩
    obtain ⟨r', hr', heq⟩ := Option.map_eq_some_iff.mp hmap
    cases heq
    exact ⟨hq, hr'⟩
  · rintro ⟨hp, hr⟩
    exact ⟨p, hp, by rw [hr, Option.map_some]⟩

theorem mem_getProducerTransactions {producerID : ByteString} :
    p ∈ tb.getProducerTransactions producerID ↔
      p ∈ (tb.pendingTxns.lookup producerID).getD [] ∧ tb.IsOpen p := by
  rw [getProducerTransactions]
  cases tb.pendingTxns.lookup producerID with
  | none => exact (and_iff_left_of_imp fun h => absurd h List.not_mem_nil).symm
  | some txns => rw [List.mem_filter, decide_eq_true_iff, Option.getD_some]

/-- The pointers that the first table has to open transactions. -/
def active (tb : TransactionTables) : List ℕ :=
  (tb.transactions.entries.filter fun x => tb.IsOpen x.2).map Sigma.snd

theorem mem_active :
    p ∈ tb.active ↔ ∃ id r, tb.getTransaction id = some p ∧ tb.records[p]? = some r ∧
      r.txn.state.Open := by
  rw [active, List.mem_map]
  constructor
  · rintro ⟨x, hx, rfl⟩
    obtain ⟨hmem, hopen⟩ := List.mem_filter.mp hx
    obtain ⟨r, hr, hopen⟩ := isOpen_iff.mp (of_decide_eq_true hopen)
    exact ⟨x.1, r, AList.mem_lookup_iff.mpr hmem, hr, hopen⟩
  · rintro ⟨id, r, hid, hr, hopen⟩
    have hisOpen := decide_eq_true (isOpen_iff.mpr ⟨r, hr, hopen⟩)
    exact ⟨⟨id, p⟩, List.mem_filter.mpr ⟨AList.mem_lookup_iff.mp hid, hisOpen⟩, rfl⟩

/-- The calls other than `BeginTransaction`: they change the transactions in the first table, and
neither of the tables. -/
structure Touched (tb tb' : TransactionTables) : Prop where
  transactions : tb'.transactions = tb.transactions
  pendingTxns : tb'.pendingTxns = tb.pendingTxns
  keys : tb'.records.map TransactionRecord.key = tb.records.map TransactionRecord.key
  changed : ∀ p, tb'.records[p]? = tb.records[p]? ∨ ∃ id, tb.getTransaction id = some p

theorem Touched.refl : tb.Touched tb := ⟨rfl, rfl, rfl, fun _ => Or.inl rfl⟩

/-- Equal keys: the record behind a pointer has the same id and the same producer. -/
theorem record_of_keys
    (hkeys : tb'.records.map TransactionRecord.key = tb.records.map TransactionRecord.key)
    (hr : tb.records[p]? = some r) :
    ∃ r', tb'.records[p]? = some r' ∧ r'.id = r.id ∧ r'.producerID = r.producerID := by
  have hkey := congrArg (fun keys => keys[p]?) hkeys
  rw [List.getElem?_map, List.getElem?_map, hr, Option.map_some] at hkey
  obtain ⟨r', hr', hkey⟩ := Option.map_eq_some_iff.mp hkey
  obtain ⟨hid, hproducer⟩ := Prod.mk.inj hkey
  exact ⟨r', hr', hid, hproducer⟩

theorem touched_update {α : Type} {f : Transaction → Except String (Transaction × α)} :
    tb.Touched (tb.update txnID f).1 := by
  rw [update]
  cases hfind : tb.find txnID with
  | none => exact .refl
  | some x =>
    obtain ⟨p, r⟩ := x
    dsimp only
    cases f r.txn with
    | error e => exact .refl
    | ok res =>
      obtain ⟨txn, a⟩ := res
      obtain ⟨hp, hr⟩ := find_eq_some_iff.mp hfind
      obtain ⟨hlt, hget⟩ := List.getElem?_eq_some_iff.mp hr
      refine ⟨rfl, rfl, ?_, ?_⟩
      · have hkey : TransactionRecord.key { r with txn } = r.key := rfl
        have hsame : tb.records.set p r = tb.records := by rw [← hget, List.set_getElem_self]
        dsimp only
        rw [List.map_set, hkey, ← List.map_set, hsame]
      · intro q
        by_cases hq : p = q
        · subst hq
          exact Or.inr ⟨txnID, hp⟩
        · exact Or.inl (List.getElem?_set_ne hq)

/-- The loop of the sweep: one call of `f` for each of the pointers is enough. -/
theorem getElem?_foldl_modify {α : Type} {f : α → α} (hf : ∀ a, f (f a) = f a) (ps : List ℕ)
    (l : List α) (q : ℕ) :
    (ps.foldl (fun l p => l.modify p f) l)[q]? = if q ∈ ps then (l[q]?).map f else l[q]? := by
  induction ps generalizing l with
  | nil => rfl
  | cons p ps ih =>
    rw [List.foldl_cons, ih, List.getElem?_modify, Option.map_eq_map]
    by_cases hp : p = q
    · subst hp
      rw [if_pos List.mem_cons_self]
      split
      · rw [Option.map_map]
        refine congrArg (fun g => (l[p]?).map g) (funext fun a => ?_)
        rw [Function.comp_apply, if_pos rfl, hf]
      · exact congrArg (fun g => (l[p]?).map g) (funext fun a => if_pos rfl)
    · have hsame : (l[q]?).map (fun a => if p = q then f a else a) = l[q]? := by
        simp only [if_neg hp, Option.map_id']
      rw [hsame]
      exact if_congr (by rw [List.mem_cons, or_iff_right fun h => hp h.symm]) rfl rfl

theorem sweep_sweep (now : ℕ) (r : TransactionRecord) :
    tb.sweep now (tb.sweep now r) = tb.sweep now r := by
  by_cases h : tb.expireAfter < (now : ℤ) - r.txn.startTime ∧ r.txn.state.Open
  · have hclosed : tb.sweep now r = { r with txn := { r.txn with state := .rolledBack } } :=
      if_pos h
    have hnot : ¬ TransactionState.Open .rolledBack := by decide
    rw [hclosed, sweep]
    exact if_neg fun hboth => hnot hboth.2
  · have hsame : tb.sweep now r = r := if_neg h
    rw [hsame, hsame]

theorem key_sweep (now : ℕ) (r : TransactionRecord) : (tb.sweep now r).key = r.key := by
  rw [sweep]
  split <;> rfl

theorem mem_values_iff : p ∈ tb.transactions.values ↔ ∃ id, tb.getTransaction id = some p := by
  rw [GoMap.values, List.mem_map]
  constructor
  · rintro ⟨x, hx, rfl⟩
    exact ⟨x.1, AList.mem_lookup_iff.mpr hx⟩
  · rintro ⟨id, hid⟩
    exact ⟨⟨id, p⟩, AList.mem_lookup_iff.mp hid, rfl⟩

theorem getElem?_cleanupExpired (now p : ℕ) :
    (tb.cleanupExpired now).records[p]? =
      if p ∈ tb.transactions.values then (tb.records[p]?).map (tb.sweep now)
      else tb.records[p]? :=
  getElem?_foldl_modify (sweep_sweep now) _ _ _

theorem touched_cleanupExpired (now : ℕ) : tb.Touched (tb.cleanupExpired now) := by
  refine ⟨rfl, rfl, List.ext_getElem? fun p => ?_, fun p => ?_⟩
  · rw [List.getElem?_map, List.getElem?_map, getElem?_cleanupExpired]
    split
    · rw [Option.map_map]
      exact congrArg (fun g => (tb.records[p]?).map g) (funext (key_sweep now))
    · rfl
  · rw [getElem?_cleanupExpired]
    split
    · rename_i hmem
      exact Or.inr (mem_values_iff.mp hmem)
    · exact Or.inl rfl

/-- What `BeginTransaction` does to the first table. -/
theorem getTransaction_beginTransaction (order : List (ByteString × Transaction))
    (producerID : ByteString) (idTime startTime : ℕ) :
    (tb.beginTransaction order producerID idTime startTime).1.getTransaction id =
      if id = dashed producerID idTime then some tb.records.length
      else if tb.maxTransactions ≤ tb.transactions.len ∧ id = TransactionManager.oldest order then
        none
      else tb.getTransaction id := by
  rw [getTransaction, beginTransaction]
  dsimp only
  rw [GoMap.lookup_insert_eq, makeRoom]
  by_cases hfull : tb.maxTransactions ≤ tb.transactions.len
  · rw [if_pos hfull]
    dsimp only
    rw [GoMap.lookup_erase_eq]
    exact if_congr Iff.rfl rfl (if_congr (and_iff_right hfull).symm rfl rfl)
  · rw [if_neg hfull]
    exact if_congr Iff.rfl rfl (if_neg fun h => hfull h.1).symm

theorem records_beginTransaction (order : List (ByteString × Transaction))
    (producerID : ByteString) (idTime startTime : ℕ) :
    (tb.beginTransaction order producerID idTime startTime).1.records =
      tb.records ++ [⟨dashed producerID idTime, producerID, ⟨.pending, [], startTime⟩⟩] := by
  rw [beginTransaction, makeRoom]
  dsimp only
  split <;> rfl

theorem pendingTxns_beginTransaction (order : List (ByteString × Transaction))
    (producerID : ByteString) (idTime startTime : ℕ) (producerID' : ByteString) :
    ((tb.beginTransaction order producerID idTime startTime).1.pendingTxns.lookup
        producerID').getD [] =
      if producerID' = producerID then
        (tb.pendingTxns.lookup producerID).getD [] ++ [tb.records.length]
      else (tb.pendingTxns.lookup producerID').getD [] := by
  have hroom : (tb.makeRoom order).pendingTxns = tb.pendingTxns ∧
      (tb.makeRoom order).records = tb.records := by
    rw [makeRoom]
    split <;> exact ⟨rfl, rfl⟩
  rw [beginTransaction]
  dsimp only
  rw [hroom.1, hroom.2, GoMap.lookup_insert_eq]
  split <;> rfl

/-- The pointer under an id leads to the transaction with this id. -/
def Found (tb : TransactionTables) : Prop :=
  ∀ ⦃id p⦄, tb.getTransaction id = some p → ∃ r, tb.records[p]? = some r ∧ r.id = id

theorem Found.touched (h : tb.Found) (ht : tb.Touched tb') : tb'.Found := by
  intro id p hid
  rw [getTransaction, ht.transactions] at hid
  obtain ⟨r, hr, rfl⟩ := h hid
  obtain ⟨r', hr', heq, -⟩ := record_of_keys ht.keys hr
  exact ⟨r', hr', heq⟩

/-- The records after `BeginTransaction`. -/
theorem record_begun {l : List TransactionRecord} {new : TransactionRecord} {p : ℕ}
    {r : TransactionRecord} :
    (l ++ [new])[p]? = some r ↔ l[p]? = some r ∨ p = l.length ∧ new = r := by
  rcases lt_trichotomy p l.length with hlt | rfl | hgt
  · rw [List.getElem?_append_left hlt, or_iff_left fun h => hlt.ne h.1]
  · rw [List.getElem?_concat_length, List.getElem?_eq_none le_rfl, Option.some_inj,
      or_iff_right (Option.some_ne_none r).symm, and_iff_right rfl]
  · rw [List.getElem?_eq_none hgt.le, List.getElem?_eq_none (by simpa using Nat.succ_le_of_lt hgt),
      or_iff_left fun h => hgt.ne' h.1]

/-- An id that is given out again leads to the new transaction from then on. -/
theorem Found.begun (h : tb.Found) (order : List (ByteString × Transaction))
    (producerID : ByteString) (idTime startTime : ℕ) :
    (tb.beginTransaction order producerID idTime startTime).1.Found := by
  intro id p hid
  rw [getTransaction_beginTransaction] at hid
  rw [records_beginTransaction]
  split_ifs at hid with hnew hevicted
  · exact ⟨_, record_begun.mpr (Or.inr ⟨(Option.some.inj hid).symm, rfl⟩), hnew.symm⟩
  · obtain ⟨r, hr, heq⟩ := h hid
    exact ⟨r, record_begun.mpr (Or.inl hr), heq⟩

end TransactionTables

namespace TablesProc

variable {maxTransactions expireAfter : ℤ} {s t : TablesProc} {ev : TxnEvent}

/-- A step touches the records or begins one transaction. -/
theorem step_cases (hticks : s.Ticks ev t) (hst : s.step ev = some t) :
    (s.tables.Touched t.tables ∧ s.clock ≤ t.clock ∧ s.SparesOpen ev t) ∨
      ∃ order producerID idTime startTime,
        ev = .beginTransaction order producerID idTime startTime ∧ s.tables.Order order ∧
        s.clock ≤ idTime ∧ idTime < t.clock ∧
        t.tables = (s.tables.beginTransaction order producerID idTime startTime).1 := by
  cases ev with
  | beginTransaction order producerID idTime startTime =>
    rw [step] at hst
    split at hst
    case isFalse => cases hst
    rename_i horder
    cases hst
    exact Or.inr ⟨order, producerID, idTime, startTime, rfl, horder, hticks.1,
      hticks.2.trans (Nat.lt_succ_self _), rfl⟩
  | addMessage | prepare | commit | rollback =>
    cases hst
    exact Or.inl ⟨TransactionTables.touched_update, le_rfl, trivial⟩
  | cleanupExpired now =>
    cases hst
    exact Or.inl ⟨TransactionTables.touched_cleanupExpired now, Nat.le_succ_of_le hticks, trivial⟩

end TablesProc

/-! ## The lists have everything -/

/-- What holds in every run in which the clock ticks: both tables point to the records, and no
two records have one id. -/
structure TablesInv (s : TablesProc) : Prop where
  found : s.tables.Found
  /-- The list of a producer has all transactions that they ever began. -/
  listed : ∀ {producerID} {p : ℕ}, p ∈ (s.tables.pendingTxns.lookup producerID).getD [] ↔
    ∃ r, s.tables.records[p]? = some r ∧ r.producerID = producerID
  nodup : ∀ producerID, ((s.tables.pendingTxns.lookup producerID).getD []).Nodup
  /-- Ids are made of readings of the past. -/
  past : ∀ {p : ℕ} {r : TransactionRecord}, s.tables.records[p]? = some r →
    ∃ reading, r.id = dashed r.producerID (reading : ℕ) ∧ reading < s.clock

namespace TablesInv

variable {maxTransactions expireAfter : ℤ} {s t : TablesProc} {ev : TxnEvent}

theorem init : TablesInv (.new maxTransactions expireAfter) where
  found _ _ h := absurd h (Option.some_ne_none _).symm
  listed := by
    intro _ _
    constructor
    · exact fun h => absurd h List.not_mem_nil
    · rintro ⟨_, hr, -⟩
      exact absurd hr (Option.some_ne_none _).symm
  nodup _ := List.nodup_nil
  past h := absurd h (Option.some_ne_none _).symm

theorem id_of_found (h : TablesInv s) {id : ByteString} {p : ℕ} {r : TransactionRecord}
    (hp : s.tables.getTransaction id = some p) (hr : s.tables.records[p]? = some r) : r.id = id := by
  obtain ⟨r', hr', heq⟩ := h.found hp
  rwa [Option.some.inj (hr.symm.trans hr')]

/-- No record has the id of a transaction that begins now. -/
theorem fresh (h : TablesInv s) {p : ℕ} {r : TransactionRecord}
    (hr : s.tables.records[p]? = some r) {producerID : ByteString} {idTime : ℕ}
    (hclock : s.clock ≤ idTime) : r.id ≠ dashed producerID idTime := by
  intro heq
  obtain ⟨reading, hid, hlt⟩ := h.past hr
  have hreading := (dashed_inj (Int.natCast_nonneg _) (Int.natCast_nonneg _)
    (hid.symm.trans heq)).2
  omega

theorem touched (h : TablesInv s) (ht : s.tables.Touched t.tables) (hclock : s.clock ≤ t.clock) :
    TablesInv t where
  found := h.found.touched ht
  listed := by
    intro producerID p
    rw [ht.pendingTxns, h.listed]
    constructor
    · rintro ⟨r, hr, rfl⟩
      obtain ⟨r', hr', -, heq⟩ := TransactionTables.record_of_keys ht.keys hr
      exact ⟨r', hr', heq⟩
    · rintro ⟨r, hr, rfl⟩
      obtain ⟨r', hr', -, heq⟩ := TransactionTables.record_of_keys ht.keys.symm hr
      exact ⟨r', hr', heq⟩
  nodup producerID := by
    rw [ht.pendingTxns]
    exact h.nodup producerID
  past := by
    intro p r hr
    obtain ⟨r', hr', hid, hproducer⟩ := TransactionTables.record_of_keys ht.keys.symm hr
    obtain ⟨reading, heq, hlt⟩ := h.past hr'
    exact ⟨reading, by rw [← hid, ← hproducer, heq], hlt.trans_le hclock⟩

theorem begun (h : TablesInv s) {order : List (ByteString × Transaction)}
    {producerID : ByteString} {idTime startTime : ℕ} (hclock : s.clock ≤ idTime)
    (hlater : idTime < t.clock)
    (ht : t.tables = (s.tables.beginTransaction order producerID idTime startTime).1) :
    TablesInv t where
  found := ht ▸ h.found.begun order producerID idTime startTime
  listed := by
    intro producerID' p
    rw [ht, TransactionTables.pendingTxns_beginTransaction,
      TransactionTables.records_beginTransaction]
    simp only [TransactionTables.record_begun, or_and_right, exists_or]
    split
    · rename_i heq
      subst heq
      rw [List.mem_append, h.listed, List.mem_singleton]
      refine or_congr_right ⟨fun hp => ⟨_, ⟨hp, rfl⟩, rfl⟩, ?_⟩
      rintro ⟨_, ⟨hp, -⟩, -⟩
      exact hp
    · rename_i hne
      rw [h.listed]
      refine (or_iff_left ?_).symm
      rintro ⟨_, ⟨-, rfl⟩, heq⟩
      exact hne heq.symm
  nodup producerID' := by
    rw [ht, TransactionTables.pendingTxns_beginTransaction]
    split
    -- the new record has a number that no record had
    · refine List.nodup_append'.mpr ⟨h.nodup _, List.nodup_singleton _, ?_⟩
      rw [List.disjoint_singleton]
      intro hmem
      obtain ⟨r, hr, -⟩ := h.listed.mp hmem
      exact absurd (List.getElem?_eq_none le_rfl) (hr ▸ Option.some_ne_none r)
    · exact h.nodup producerID'
  past := by
    intro p r hr
    rw [ht, TransactionTables.records_beginTransaction, TransactionTables.record_begun] at hr
    rcases hr with hr | ⟨-, rfl⟩
    · obtain ⟨reading, heq, hlt⟩ := h.past hr
      exact ⟨reading, heq, hlt.trans_le (hclock.trans hlater.le)⟩
    · exact ⟨idTime, rfl, hlater⟩

/-- A new record gets an id that no record has had, and the other calls leave the ids alone. -/
theorem step (h : TablesInv s) (hticks : s.Ticks ev t) (hst : s.step ev = some t) :
    TablesInv t := by
  rcases TablesProc.step_cases hticks hst with
    ⟨htouched, hclock, -⟩ | ⟨_, _, _, _, -, -, hclock, hlater, ht⟩
  · exact h.touched htouched hclock
  · exact h.begun hclock hlater ht

end TablesInv

/-! ## Without the heap -/

namespace TransactionTables

/-- What the first table holds, with the transactions in it. -/
structure Abstracts (tb : TransactionTables) (tm : TransactionManager) : Prop where
  lookup : ∀ id, tm.transactions.lookup id = (tb.find id).map fun x => x.2.txn
  maxTransactions : tm.maxTransactions = tb.maxTransactions
  expireAfter : tm.expireAfter = tb.expireAfter

variable {tb : TransactionTables} {tm : TransactionManager} (hfound : tb.Found)

include hfound

/-- A change of one transaction is seen under its id only. -/
theorem find_set {txnID : ByteString} {p : ℕ} {r : TransactionRecord}
    (hp : tb.getTransaction txnID = some p) (hr : tb.records[p]? = some r) (txn : Transaction)
    (id : ByteString) :
    ({ tb with records := tb.records.set p { r with txn } } : TransactionTables).find id =
      if id = txnID then some (p, { r with txn }) else tb.find id := by
  obtain ⟨hlt, -⟩ := List.getElem?_eq_some_iff.mp hr
  split
  · rename_i heq
    subst heq
    exact find_eq_some_iff.mpr ⟨hp, List.getElem?_set_self hlt⟩
  · rename_i hne
    rw [find, find]
    refine Option.bind_congr fun q hq => ?_
    -- two ids do not lead to one record, which has the id that leads to it
    have hpq : p ≠ q := by
      rintro rfl
      obtain ⟨r₁, hr₁, rfl⟩ := hfound hp
      obtain ⟨r₂, hr₂, rfl⟩ := hfound hq
      obtain rfl := Option.some.inj (hr₁.symm.trans hr₂)
      exact hne rfl
    rw [List.getElem?_set_ne hpq]

/-- **Calls**: the same change and the same answer. -/
theorem Abstracts.update (h : tb.Abstracts tm) {α : Type} (txnID : ByteString)
    (f : Transaction → Except String (Transaction × α)) :
    (tb.update txnID f).1.Abstracts (tm.update txnID f).1 ∧
      (tb.update txnID f).2 = (tm.update txnID f).2 := by
  have hlookup := h.lookup txnID
  rw [TransactionTables.update, TransactionManager.update]
  cases hfind : tb.find txnID with
  | none =>
    rw [hfind, Option.map_none] at hlookup
    rw [hlookup]
    exact ⟨h, rfl⟩
  | some x =>
    obtain ⟨p, r⟩ := x
    rw [hfind, Option.map_some] at hlookup
    rw [hlookup]
    dsimp only
    cases f r.txn with
    | error e => exact ⟨h, rfl⟩
    | ok res =>
      obtain ⟨txn, a⟩ := res
      obtain ⟨hp, hr⟩ := find_eq_some_iff.mp hfind
      refine ⟨⟨fun id => ?_, h.maxTransactions, h.expireAfter⟩, rfl⟩
      rw [find_set hfound hp hr, GoMap.lookup_insert_eq]
      split
      · rfl
      · exact h.lookup id

omit hfound in
theorem find_cleanupExpired (now : ℕ) (id : ByteString) :
    (tb.cleanupExpired now).find id = (tb.find id).map fun x => (x.1, tb.sweep now x.2) := by
  rw [find, find, Option.map_bind]
  refine Option.bind_congr fun p hp => ?_
  have hmem : p ∈ tb.transactions.values := mem_values_iff.mpr ⟨id, hp⟩
  rw [getElem?_cleanupExpired, if_pos hmem, Option.map_map, Function.comp_apply, Option.map_map]
  rfl

omit hfound in
/-- The sweep rolls the same transactions back in both views. -/
theorem Abstracts.cleanupExpired (h : tb.Abstracts tm) (now : ℕ) :
    (tb.cleanupExpired now).Abstracts (tm.cleanupExpired now) where
  lookup id := by
    rw [find_cleanupExpired, TransactionManager.cleanupExpired, GoMap.lookup_mapValues, h.lookup,
      Option.map_map, Option.map_map]
    refine congrArg (fun g => (tb.find id).map g) (funext fun x => ?_)
    have hexpires : tm.Expires now x.2.txn ↔
        tb.expireAfter < (now : ℤ) - x.2.txn.startTime ∧ x.2.txn.state.Open := by
      unfold TransactionManager.Expires
      rw [h.expireAfter]
    rw [Function.comp_apply, Function.comp_apply, if_congr hexpires rfl rfl, sweep]
    split <;> rfl
  maxTransactions := h.maxTransactions
  expireAfter := h.expireAfter

/-- Both tables have the same ids. -/
theorem Abstracts.mem_iff (h : tb.Abstracts tm) {id : ByteString} :
    id ∈ tm.transactions.keys ↔ id ∈ tb.transactions.keys := by
  rw [← AList.mem_keys, ← AList.mem_keys, GoMap.mem_iff_exists_lookup, GoMap.mem_iff_exists_lookup,
    h.lookup]
  constructor
  · rintro ⟨txn, htxn⟩
    obtain ⟨⟨p, r⟩, hx, -⟩ := Option.map_eq_some_iff.mp htxn
    exact ⟨p, (find_eq_some_iff.mp hx).1⟩
  · rintro ⟨p, hp⟩
    obtain ⟨r, hr, -⟩ := hfound hp
    exact ⟨r.txn, by rw [find_eq_some_iff.mpr ⟨hp, hr⟩, Option.map_some]⟩

theorem Abstracts.keys_perm (h : tb.Abstracts tm) :
    tm.transactions.keys.Perm tb.transactions.keys :=
  (List.perm_ext_iff_of_nodup (AList.keys_nodup _) (AList.keys_nodup _)).mpr
    fun _ => h.mem_iff hfound

/-- The loop of `BeginTransaction` sees the same pairs. -/
theorem Abstracts.order (h : tb.Abstracts tm) {order : List (ByteString × Transaction)}
    (horder : tb.Order order) : tm.transactions.Order order := by
  have hentries : (tm.transactions.entries.map fun x => (x.1, x.2)) =
      tm.transactions.keys.filterMap fun id => (tb.find id).map fun x => (id, x.2.txn) := by
    rw [AList.keys, List.keys, List.filterMap_map, ← List.filterMap_eq_map]
    refine List.filterMap_congr fun x hx => ?_
    have hlookup : tm.transactions.lookup x.1 = some x.2 := AList.mem_lookup_iff.mpr hx
    rw [h.lookup] at hlookup
    obtain ⟨y, hy, htxn⟩ := Option.map_eq_some_iff.mp hlookup
    rw [Function.comp_apply, Function.comp_apply, hy, Option.map_some, htxn]
  rw [GoMap.Order, hentries]
  exact horder.trans ((h.keys_perm hfound).filterMap _).symm

/-- The transactions that `BeginTransaction` leaves alone. -/
theorem find_of_append {rest : List TransactionRecord} {id : ByteString}
    {tb' : TransactionTables} (hrecords : tb'.records = tb.records ++ rest)
    (hsame : tb'.getTransaction id = tb.getTransaction id) : tb'.find id = tb.find id := by
  rw [find, find, hsame]
  refine Option.bind_congr fun q hq => ?_
  obtain ⟨r, hr, -⟩ := hfound hq
  obtain ⟨hlt, -⟩ := List.getElem?_eq_some_iff.mp hr
  rw [hrecords, List.getElem?_append_left hlt]

/-- `BeginTransaction` evicts and adds the same transactions in both views. -/
theorem Abstracts.beginTransaction (h : tb.Abstracts tm) (order : List (ByteString × Transaction))
    (producerID : ByteString) (idTime startTime : ℕ) :
    (tb.beginTransaction order producerID idTime startTime).1.Abstracts
      (tm.beginTransaction order producerID idTime startTime).1 where
  lookup id := by
    have hlen : tm.transactions.len = tb.transactions.len := by
      rw [GoMap.len_eq_length_keys, GoMap.len_eq_length_keys, (h.keys_perm hfound).length_eq]
    have hget := @getTransaction_beginTransaction tb id order producerID idTime startTime
    have hrecords := @records_beginTransaction tb order producerID idTime startTime
    rw [TransactionManager.beginTransaction]
    dsimp only
    rw [GoMap.lookup_insert_eq, TxnProc.lookup_makeRoom, hlen, h.maxTransactions]
    split_ifs at hget ⊢ with hnew hevicted
    · have hfind := find_eq_some_iff.mpr ⟨hget, hrecords ▸ List.getElem?_concat_length⟩
      rw [hfind, Option.map_some]
    · rw [find, hget, Option.bind_none, Option.map_none]
    · rw [find_of_append hfound hrecords hget, h.lookup]
  maxTransactions := by
    rw [TransactionManager.beginTransaction, TransactionManager.makeRoom,
      TransactionTables.beginTransaction, makeRoom]
    dsimp only
    split <;> split <;> exact h.maxTransactions
  expireAfter := by
    rw [TransactionManager.beginTransaction, TransactionManager.makeRoom,
      TransactionTables.beginTransaction, makeRoom]
    dsimp only
    split <;> split <;> exact h.expireAfter

end TransactionTables

section

variable {maxTransactions expireAfter : ℤ} {s t : TablesProc} {v : TxnProc} {ev : TxnEvent}

theorem TxnProc.tm_returned {α : Type} (res : TransactionManager × Except String α)
    (note : α → TxnNote) : (v.returned res note).tm = res.1 := by
  unfold TxnProc.returned
  split <;> rfl

/-- **Simulation**: a step of the tables is a step of the manager, whatever the clock shows. -/
theorem exists_value_step (h : s.tables.Found) (ha : s.tables.Abstracts v.tm)
    (hst : s.step ev = some t) :
    ∃ v', v.step ev = some v' ∧ t.tables.Abstracts v'.tm ∧ t.tables.Found := by
  -- the four calls on one transaction do the same to both
  have hcall : ∀ {α : Type} (txnID : ByteString) (f : Transaction → Except String (Transaction × α))
      (note : α → TxnNote),
      (s.tables.update txnID f).1.Abstracts (v.returned (v.tm.update txnID f) note).tm ∧
        (s.tables.update txnID f).1.Found := by
    intro α txnID f note
    rw [TxnProc.tm_returned]
    exact ⟨(ha.update h txnID f).1, h.touched TransactionTables.touched_update⟩
  cases ev with
  | beginTransaction order producerID idTime startTime =>
    rw [TablesProc.step] at hst
    split at hst
    case isFalse => cases hst
    rename_i horder
    cases hst
    -- the order of one map is an order of the other
    exact ⟨_, if_pos (ha.order h horder),
      ha.beginTransaction h order producerID idTime startTime,
      h.begun order producerID idTime startTime⟩
  | addMessage txnID topic partition data =>
    cases hst
    exact ⟨_, rfl, hcall txnID (Transaction.addMessage topic partition data) _⟩
  | prepare txnID =>
    cases hst
    exact ⟨_, rfl, hcall txnID Transaction.prepare _⟩
  | commit txnID =>
    cases hst
    exact ⟨_, rfl, hcall txnID Transaction.commit _⟩
  | rollback txnID =>
    cases hst
    exact ⟨_, rfl, hcall txnID Transaction.rollback _⟩
  | cleanupExpired now =>
    cases hst
    exact ⟨_, rfl, ha.cleanupExpired now,
      h.touched (TransactionTables.touched_cleanupExpired now)⟩

/-- A sequence of calls from any two states of which one is the other without the heap. -/
theorem exists_value_calls {calls : List TxnEvent} (h : s.tables.Found)
    (ha : s.tables.Abstracts v.tm) (hexec : calls.foldlM TablesProc.step s = some t) :
    ∃ v', calls.foldlM TxnProc.step v = some v' ∧ t.tables.Abstracts v'.tm := by
  induction calls generalizing s v with
  | nil =>
    cases hexec
    exact ⟨v, rfl, ha⟩
  | cons ev calls ih =>
    rw [List.foldlM_cons] at hexec
    obtain ⟨s₁, hst, hrest⟩ := Option.bind_eq_some_iff.mp hexec
    obtain ⟨v₁, hv₁, ha₁, h₁⟩ := exists_value_step h ha hst
    obtain ⟨v', hv', ha'⟩ := ih h₁ ha₁ hrest
    refine ⟨v', ?_, ha'⟩
    rw [List.foldlM_cons]
    exact Option.bind_eq_some_iff.mpr ⟨v₁, hv₁, hv'⟩

/-- **Refinement**: whatever `GetTransaction` shows after a sequence of calls on the tables, it
shows after the same calls on the manager without them. -/
theorem exists_value_run {calls : List TxnEvent}
    (hexec : calls.foldlM TablesProc.step (.new maxTransactions expireAfter) = some s) :
    ∃ v, calls.foldlM TxnProc.step (.new maxTransactions expireAfter) = some v ∧
      s.tables.Abstracts v.tm :=
  exists_value_calls TablesInv.init.found ⟨fun _ => rfl, rfl, rfl⟩ hexec

/-- The transaction of `p` has made room for the one of `q`. -/
theorem exists_value_run_evicted :
    let calls : List TxnEvent := [.beginTransaction [] [112] 5 6,
      .beginTransaction [(dashed [112] 5, ⟨.pending, [], 6⟩)] [113] 7 8]
    ∃ (s : TablesProc) (v : TxnProc), s.tables.records.length = 2 ∧
      calls.foldlM TxnProc.step (.new 1 1000) = some v ∧ s.tables.Abstracts v.tm := by
  intro calls
  have hlen : (calls.foldlM TablesProc.step (.new 1 1000)).any
      (fun s => s.tables.records.length = 2) = true := by decide +kernel
  obtain ⟨s, hexec, hlen⟩ := (Option.any_eq_true _ _).mp hlen
  obtain ⟨v, hv, habs⟩ := exists_value_run hexec
  exact ⟨s, v, of_decide_eq_true hlen, hv, habs⟩

end

/-! ## The two views -/

/-- **The law.** The list of a producer is what `GetTransaction` can find of their PENDING or
PREPARED transactions, each of them once. -/
def TransactionTables.Agree (tb : TransactionTables) : Prop :=
  ∀ producerID, (tb.getProducerTransactions producerID).Nodup ∧
    ∀ p, p ∈ tb.getProducerTransactions producerID ↔
      ∃ id r, tb.getTransaction id = some p ∧ tb.records[p]? = some r ∧
        r.producerID = producerID ∧ r.txn.state.Open

/-- The PENDING or PREPARED transactions are in the first table. -/
def TransactionTables.Kept (tb : TransactionTables) : Prop :=
  ∀ p r, tb.records[p]? = some r → r.txn.state.Open → tb.getTransaction r.id = some p

namespace TablesInv

variable {maxTransactions expireAfter : ℤ} {s t : TablesProc} {ev : TxnEvent}

/-- Since the lists have everything, it is up to the first table. -/
theorem agree_iff_kept (h : TablesInv s) : s.tables.Agree ↔ s.tables.Kept := by
  constructor
  · intro hagree p r hr hopen
    have hlisted : p ∈ s.tables.getProducerTransactions r.producerID :=
      TransactionTables.mem_getProducerTransactions.mpr
        ⟨h.listed.mpr ⟨r, hr, rfl⟩, TransactionTables.isOpen_iff.mpr ⟨r, hr, hopen⟩⟩
    obtain ⟨id, -, hid, -⟩ := ((hagree r.producerID).2 p).mp hlisted
    rwa [h.id_of_found hid hr]
  · intro hkept producerID
    constructor
    · rw [TransactionTables.getProducerTransactions]
      have hnodup := h.nodup producerID
      cases hlist : s.tables.pendingTxns.lookup producerID with
      | none => exact List.nodup_nil
      | some txns =>
        rw [hlist] at hnodup
        exact hnodup.filter _
    · intro p
      rw [TransactionTables.mem_getProducerTransactions, h.listed, TransactionTables.isOpen_iff]
      constructor
      · rintro ⟨⟨r, hr, hproducer⟩, r', hr', hopen⟩
        obtain rfl := Option.some.inj (hr.symm.trans hr')
        exact ⟨r.id, r, hkept p r hr hopen, hr, hproducer, hopen⟩
      · rintro ⟨id, r, -, hr, hproducer, hopen⟩
        exact ⟨⟨r, hr, hproducer⟩, r, hr, hopen⟩

/-- A transaction that is open now is one that was open before, or one that the first table
has. -/
theorem kept_touched (h : TablesInv s) (hkept : s.tables.Kept)
    (ht : s.tables.Touched t.tables) : t.tables.Kept := by
  intro p r hr hopen
  rw [TransactionTables.getTransaction, ht.transactions]
  obtain ⟨r', hr', hid, -⟩ := TransactionTables.record_of_keys ht.keys.symm hr
  rcases ht.changed p with hsame | ⟨id, hp⟩
  · exact hkept p r (hsame ▸ hr) hopen
  · rw [← hid, h.id_of_found hp hr']
    exact hp

/-- **`BeginTransaction`** keeps the open transactions in the first table iff it evicts none of
them. -/
theorem kept_begun_iff (h : TablesInv s) (hkept : s.tables.Kept)
    {order : List (ByteString × Transaction)} {producerID : ByteString} {idTime startTime : ℕ}
    (hclock : s.clock ≤ idTime)
    (ht : t.tables = (s.tables.beginTransaction order producerID idTime startTime).1) :
    t.tables.Kept ↔ s.SparesOpen (.beginTransaction order producerID idTime startTime) t := by
  constructor
  · intro hkept' hfull
    rw [Option.all_eq_true]
    rintro ⟨p, r⟩ hfind
    obtain ⟨hp, hr⟩ := TransactionTables.find_eq_some_iff.mp hfind
    have hid := h.id_of_found hp hr
    refine decide_eq_true fun hopen => ?_
    -- it is still open, and its id leads nowhere
    have hr'' : t.tables.records[p]? = some r := by
      rw [ht, TransactionTables.records_beginTransaction]
      exact TransactionTables.record_begun.mpr (Or.inl hr)
    have hgone : t.tables.getTransaction r.id = none := by
      rw [ht, TransactionTables.getTransaction_beginTransaction, if_neg (h.fresh hr hclock),
        if_pos ⟨hfull, hid⟩]
    exact Option.some_ne_none p ((hkept' p r hr'' hopen).symm.trans hgone)
  · intro hspares p r hr hopen
    rw [ht, TransactionTables.records_beginTransaction, TransactionTables.record_begun] at hr
    rw [ht, TransactionTables.getTransaction_beginTransaction]
    rcases hr with hr | ⟨rfl, rfl⟩
    · have hp := hkept p r hr hopen
      rw [if_neg (h.fresh hr hclock), if_neg, hp]
      rintro ⟨hfull, hid⟩
      have hclosed := (Option.all_eq_true _ _).mp (hspares hfull) (p, r)
        (TransactionTables.find_eq_some_iff.mpr ⟨hid ▸ hp, hr⟩)
      exact of_decide_eq_true hclosed hopen
    · rw [if_pos rfl]

/-- All open transactions stay in the first table iff the step evicts none of them. -/
theorem kept_step_iff (h : TablesInv s) (hkept : s.tables.Kept) (hticks : s.Ticks ev t)
    (hst : s.step ev = some t) : t.tables.Kept ↔ s.SparesOpen ev t := by
  rcases TablesProc.step_cases hticks hst with
    ⟨htouched, -, hspares⟩ | ⟨_, _, _, _, rfl, -, hclock, -, ht⟩
  · exact iff_of_true (h.kept_touched hkept htouched) hspares
  · exact h.kept_begun_iff hkept hclock ht

/-- In a run that evicts no open transaction all of them are in the first table. -/
theorem of_run
    (hrun : Run TablesProc.step (fun s ev t => s.Ticks ev t ∧ s.SparesOpen ev t)
      (.new maxTransactions expireAfter) s) : TablesInv s ∧ s.tables.Kept := by
  refine hrun.invariant (P := fun s => TablesInv s ∧ s.tables.Kept) ?_ ?_
  · exact ⟨init, fun _ _ hr => absurd hr (Option.some_ne_none _).symm⟩
  · rintro s ev t ⟨h, hkept⟩ ⟨hticks, hspares⟩ hst
    exact ⟨h.step hticks hst, (h.kept_step_iff hkept hticks hst).mpr hspares⟩

/-- A list without repetitions has as many elements as the set of its elements. -/
theorem length_eq_card {l : List ℕ} (hnodup : l.Nodup) {set : Finset ℕ}
    (hmem : ∀ p, p ∈ l ↔ p ∈ set) : l.length = set.card := by
  rw [← List.toFinset_card_of_nodup hnodup]
  exact congrArg Finset.card (Finset.ext fun p => List.mem_toFinset.trans (hmem p))

theorem nodup_active (h : TablesInv s) : s.tables.active.Nodup := by
  refine List.Nodup.map_on ?_ ((List.NodupKeys.nodup s.tables.transactions.nodupKeys).filter _)
  rintro ⟨id, p⟩ hx ⟨id', p'⟩ hx' heq
  obtain rfl : p = p' := heq
  obtain ⟨r, hr, hid⟩ := h.found (AList.mem_lookup_iff.mpr (List.mem_filter.mp hx).1)
  have hid' := h.id_of_found (AList.mem_lookup_iff.mpr (List.mem_filter.mp hx').1) hr
  rw [← hid, ← hid']

/-- **Counting**: if the views agree, `GetActiveTransactions` is the sum of the lengths of the
lists. -/
theorem active_eq_sum (h : TablesInv s) (hagree : s.tables.Agree) {producers : Finset ByteString}
    (hall : ∀ r ∈ s.tables.records, r.producerID ∈ producers) :
    s.tables.getActiveTransactions =
      ∑ producerID ∈ producers, (s.tables.getProducerTransactions producerID).length := by
  let producerOf : ℕ → ByteString := fun p =>
    ((s.tables.records[p]?).map TransactionRecord.producerID).getD []
  have hproducer : ∀ {p r}, s.tables.records[p]? = some r → producerOf p = r.producerID := by
    intro p r hr
    dsimp only [producerOf]
    rw [hr, Option.map_some, Option.getD_some]
  have hcount : s.tables.getActiveTransactions = s.tables.active.toFinset.card := by
    rw [List.toFinset_card_of_nodup h.nodup_active, TransactionTables.active, List.length_map,
      ← List.countP_eq_length_filter]
    rfl
  have hmaps : Set.MapsTo producerOf s.tables.active.toFinset producers := by
    intro p hp
    obtain ⟨-, r, -, hr, -⟩ := TransactionTables.mem_active.mp (List.mem_toFinset.mp hp)
    rw [hproducer hr]
    exact hall r (List.mem_of_getElem? hr)
  rw [hcount, Finset.card_eq_sum_card_fiberwise hmaps]
  -- the list of a producer is the part of the table with this producer
  refine Finset.sum_congr rfl fun producerID _ => (length_eq_card (hagree producerID).1 ?_).symm
  intro p
  rw [(hagree producerID).2 p, Finset.mem_filter, List.mem_toFinset,
    TransactionTables.mem_active]
  constructor
  · rintro ⟨id, r, hid, hr, heq, hopen⟩
    exact ⟨⟨id, r, hid, hr, hopen⟩, (hproducer hr).trans heq⟩
  · rintro ⟨⟨id, r, hid, hr, hopen⟩, heq⟩
    exact ⟨id, r, hid, hr, (hproducer hr).symm.trans heq, hopen⟩

end TablesInv

section

variable {maxTransactions expireAfter : ℤ} {s : TablesProc}

/-- **The two views agree** in every run with increasing clock readings in which `BeginTransaction`
evicts no transaction that is PENDING or PREPARED, and then the counts agree too. They do not
agree after a step that evicts one. -/
theorem transaction_views_agree
    (hrun : Run TablesProc.step (fun s ev t => s.Ticks ev t ∧ s.SparesOpen ev t)
      (.new maxTransactions expireAfter) s) :
    s.tables.Agree ∧
      (∀ producers : Finset ByteString, (∀ r ∈ s.tables.records, r.producerID ∈ producers) →
        s.tables.getActiveTransactions =
          ∑ producerID ∈ producers, (s.tables.getProducerTransactions producerID).length) ∧
      ∀ ev t, s.Ticks ev t → s.step ev = some t → (t.tables.Agree ↔ s.SparesOpen ev t) := by
  obtain ⟨h, hkept⟩ := TablesInv.of_run hrun
  have hagree := h.agree_iff_kept.mpr hkept
  refine ⟨hagree, fun _ hall => h.active_eq_sum hagree hall, ?_⟩
  intro ev t hticks hst
  rw [(h.step hticks hst).agree_iff_kept]
  exact h.kept_step_iff hkept hticks hst

/-- Producer `p` commits a transaction; `q` begins one, for which it is evicted, and `p` one
more. -/
theorem transaction_views_agree_two :
    ∃ s : TablesProc, s.tables.maxTransactions = 2 ∧ s.tables.Agree ∧
      s.tables.getActiveTransactions = 2 := by
  obtain ⟨s, hrun, hmax, hactive⟩ : ∃ s, Run TablesProc.step
      (fun s ev t => s.Ticks ev t ∧ s.SparesOpen ev t) (.new 2 1000) s ∧
      s.tables.maxTransactions = 2 ∧ s.tables.getActiveTransactions = 2 :=
    exists_run_of_execWith
      [.beginTransaction [] [112] 5 6, .addMessage (dashed [112] 5) "t" 0 [1],
        .prepare (dashed [112] 5), .commit (dashed [112] 5),
        .beginTransaction [(dashed [112] 5, ⟨.committed, [⟨"t", 0, [1], 0⟩], 6⟩)] [113] 7 8,
        .beginTransaction [(dashed [113] 7, ⟨.pending, [], 8⟩),
          (dashed [112] 5, ⟨.committed, [⟨"t", 0, [1], 0⟩], 6⟩)] [112] 9 10]
      (by decide +kernel)
  exact ⟨s, hmax, (transaction_views_agree hrun).1, hactive⟩

/-- A table for one: `q` begins a transaction and the one of `p` is evicted. It cannot be found
any more, and it is still in the list of `p`. -/
theorem evicted_still_listed :
    ∃ s, Run TablesProc.step TablesProc.Ticks (.new 1 1000) s ∧
      s.tables.getProducerTransactions [112] = [0] ∧
      (s.tables.records[0]?).map TransactionRecord.id = some (dashed [112] 5) ∧
      s.tables.getTransaction (dashed [112] 5) = none ∧
      s.tables.getActiveTransactions = 1 ∧
      (s.tables.getProducerTransactions [112]).length +
        (s.tables.getProducerTransactions [113]).length = 2 :=
  exists_run_of_execWith
    [.beginTransaction [] [112] 5 6,
      .beginTransaction [(dashed [112] 5, ⟨.pending, [], 6⟩)] [113] 7 8]
    (by decide +kernel)

end

end DistributedMQ.Broker
