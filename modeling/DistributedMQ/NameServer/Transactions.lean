import DistributedMQ.Lib.Machine
import DistributedMQ.Raft.Types
import Mathlib.Data.List.InsertIdx

/-!
# The transaction coordinator (`nameserver/tc.go`)

`CommitTx` holds `tc.mu` three times: to set COMMITTING, in `doCommit`, and to set
the final status through the pointer it has kept. Between these critical sections
anything else may run. `TcProc` has one step per critical section.

`tc.transactions` maps ids to pointers. A pointer is a position in the list of all
`TxState`s made so far, so that a transaction keeps its identity even if `BeginTx`
gives its id again. Every section says in which states of the memory it called
`persistTx`; the log file is the subject of `TxLog.lean`. Clock readings and the order
in which a sweep visits the map are inputs.

- `CommitsInv`: the transactions with a `CommitTx` in progress are COMMITTING, each with
  one call; the results that were returned agree with the statuses.
- `outcome_final`: if `RollbackTx` is called on no transaction that is COMMITTED or has a
  `CommitTx` in progress, outcomes are final and no transaction is both committed and
  rolled back.
- `commit_then_rollback`: `RollbackTx` does not look at the status.
-/

namespace DistributedMQ.NameServer

open Machine

/-! ## Transactions -/

inductive TxStatus where
  | pending
  | committing
  | committed
  | aborted
deriving DecidableEq, Repr

namespace TxStatus

/-- The constants of the source. -/
def text : TxStatus → String
  | .pending => "PENDING"
  | .committing => "COMMITTING"
  | .committed => "COMMITTED"
  | .aborted => "ABORTED"

/-- The transaction has its outcome. -/
def Terminal (status : TxStatus) : Prop := status = .committed ∨ status = .aborted

instance (status : TxStatus) : Decidable status.Terminal :=
  inferInstanceAs (Decidable (_ ∨ _))

theorem Terminal.ne_pending {status : TxStatus} (h : status.Terminal) : status ≠ .pending := by
  rintro rfl
  exact absurd h (by decide)

theorem Terminal.ne_committing {status : TxStatus} (h : status.Terminal) :
    status ≠ .committing := by
  rintro rfl
  exact absurd h (by decide)

end TxStatus

structure TxMessage where
  topic : String
  partition : ℤ
  key : String
  value : List UInt8
deriving DecidableEq, Repr

structure TxState where
  txID : String
  status : TxStatus
  producerID : String
  partitionInfo : List TxMessage
  createdAt : ℤ
  updatedAt : ℤ
deriving DecidableEq, Repr

/-- The memory of the coordinator. Every transaction stands under its own id. -/
structure TransactionCoordinator where
  /-- Every `TxState` made so far. -/
  objects : List TxState
  /-- The map from ids to pointers into `objects`. -/
  transactions : GoMap String ℕ
  keyed : ∀ txID p, transactions.lookup txID = some p →
    ∃ tx, objects[p]? = some tx ∧ tx.txID = txID

/-- What a critical section leaves: the memory, what it returns, and the memory at
each call of `persistTx`. -/
structure Outcome (α : Type) where
  tc : TransactionCoordinator
  result : α
  persisted : List TransactionCoordinator

namespace TransactionCoordinator

/-- A coordinator without transactions. -/
def empty : TransactionCoordinator where
  objects := []
  transactions := ∅
  keyed := nofun

/-- `tc.transactions[tx.TxID] = tx` for a new `tx`. -/
def insert (tc : TransactionCoordinator) (tx : TxState) : TransactionCoordinator where
  objects := tc.objects ++ [tx]
  transactions := tc.transactions.insert tx.txID tc.objects.length
  keyed := by
    intro txID p h
    by_cases heq : txID = tx.txID
    · subst heq
      rw [AList.lookup_insert] at h
      cases h
      exact ⟨tx, List.getElem?_concat_length, rfl⟩
    · rw [AList.lookup_insert_ne heq] at h
      obtain ⟨old, hold, hid⟩ := tc.keyed txID p h
      exact ⟨old, List.getElem?_append_left (List.getElem?_eq_some_iff.mp hold).1 ▸ hold, hid⟩

/-- A write through a pointer that leaves the id alone. -/
def modify (tc : TransactionCoordinator) (p : ℕ) (f : TxState → TxState)
    (hf : ∀ tx, (f tx).txID = tx.txID) : TransactionCoordinator where
  objects := tc.objects.modify p f
  transactions := tc.transactions
  keyed := by
    intro txID q h
    obtain ⟨tx, htx, hid⟩ := tc.keyed txID q h
    by_cases heq : p = q
    · subst heq
      refine ⟨f tx, ?_, (hf tx).trans hid⟩
      rw [List.getElem?_modify_eq, htx]
      rfl
    · exact ⟨tx, (List.getElem?_modify_ne f tc.objects heq).trans htx, hid⟩

/-- `tx.Status = status` and `tx.UpdatedAt = now`. -/
def setStatus (tc : TransactionCoordinator) (p : ℕ) (status : TxStatus) (now : ℤ) :
    TransactionCoordinator :=
  tc.modify p (fun tx => { tx with status := status, updatedAt := now }) fun _ => rfl

/-- `tx.PartitionInfo = append(tx.PartitionInfo, msg)` and `tx.UpdatedAt = now`. -/
def appendMessage (tc : TransactionCoordinator) (p : ℕ) (msg : TxMessage) (now : ℤ) :
    TransactionCoordinator :=
  tc.modify p (fun tx => { tx with partitionInfo := tx.partitionInfo ++ [msg], updatedAt := now })
    fun _ => rfl

/-- `tc.transactions[txID]`, with the pointer. -/
def find (tc : TransactionCoordinator) (txID : String) : Option (ℕ × TxState) :=
  (tc.transactions.lookup txID).bind fun p => (tc.objects[p]?).map fun tx => (p, tx)

/-- The transactions in the map, in one order. -/
def txs (tc : TransactionCoordinator) : List TxState :=
  tc.transactions.values.filterMap fun p => tc.objects[p]?

/-- `30 * time.Second`. -/
def timeout : ℤ := 30 * 1000000000

def beginTx (tc : TransactionCoordinator) (producerID : String)
    (nano randNano createdAt updatedAt : ℤ) : Outcome String :=
  let randInt := randNano.tmod 1000000
  let txID := s!"{producerID}-{nano}-{randInt}"
  let tc := tc.insert
    { txID, status := .pending, producerID, partitionInfo := [], createdAt, updatedAt }
  ⟨tc, txID, [tc]⟩

def addMessage (tc : TransactionCoordinator) (txID : String) (msg : TxMessage) (now : ℤ) :
    Outcome (Except String Unit) :=
  match tc.find txID with
  | none => ⟨tc, .error s!"transaction {txID} not found", []⟩
  | some (p, tx) =>
    if tx.status ≠ .pending then
      ⟨tc, .error s!"cannot add message to transaction in state {tx.status.text}", []⟩
    else
      let tc := tc.appendMessage p msg now
      ⟨tc, .ok (), [tc]⟩

/-- The first critical section of `CommitTx`, with the pointer it keeps. -/
def commitTx (tc : TransactionCoordinator) (txID : String) (now : ℤ) :
    Outcome (Except String ℕ) :=
  match tc.find txID with
  | none => ⟨tc, .error s!"transaction {txID} not found", []⟩
  | some (p, tx) =>
    if tx.status ≠ .pending then
      ⟨tc, .error s!"cannot commit transaction in state {tx.status.text}", []⟩
    else
      let tc := tc.setStatus p .committing now
      ⟨tc, .ok p, [tc]⟩

def doCommit (tc : TransactionCoordinator) (txID : String) : Except String Unit :=
  match tc.find txID with
  | none => .error s!"transaction {txID} not found"
  | some _ => .ok ()

/-- The status `CommitTx` ends with. -/
def finalStatus : Except String Unit → TxStatus
  | .error _ => .aborted
  | .ok _ => .committed

/-- The last critical section of `CommitTx`. -/
def finishCommit (tc : TransactionCoordinator) (p : ℕ) (err : Except String Unit) (now : ℤ) :
    Outcome (Except String Unit) :=
  let tc := tc.setStatus p (finalStatus err) now
  ⟨tc, err, [tc]⟩

def rollbackTx (tc : TransactionCoordinator) (txID : String) (now : ℤ) :
    Outcome (Except String Unit) :=
  match tc.find txID with
  | none => ⟨tc, .error s!"transaction {txID} not found", []⟩
  | some (p, _) =>
    let tc := tc.setStatus p .aborted now
    ⟨tc, .ok (), [tc]⟩

def getTxStatus (tc : TransactionCoordinator) (txID : String) : Except String TxStatus :=
  match tc.find txID with
  | none => .error s!"transaction {txID} not found"
  | some (_, tx) => .ok tx.status

/-- The body of the loop of `startTimeoutChecker`. -/
def expire (now : ℤ) (out : Outcome Unit) (txID : String) : Outcome Unit :=
  match out.tc.find txID with
  | none => out
  | some (p, tx) =>
    if tx.status = .pending ∧ timeout < now - tx.createdAt then
      let tc := out.tc.setStatus p .aborted now
      ⟨tc, (), out.persisted ++ [tc]⟩
    else out

/-- A tick of `startTimeoutChecker`, ranging over the map in the order given. -/
def checkTimeouts (tc : TransactionCoordinator) (order : List String) (now : ℤ) : Outcome Unit :=
  order.foldl (expire now) ⟨tc, (), []⟩

/-- The status of the transaction behind a pointer. -/
def status (tc : TransactionCoordinator) (p : ℕ) : Option TxStatus :=
  (tc.objects[p]?).map TxState.status

/-! ### What the sections do to statuses -/

variable {tc : TransactionCoordinator} {p q : ℕ} {st : TxStatus}

theorem find_eq_some {txID : String} {tx : TxState} (h : tc.find txID = some (p, tx)) :
    tc.transactions.lookup txID = some p ∧ tc.objects[p]? = some tx := by
  obtain ⟨q, hq, h⟩ := Option.bind_eq_some_iff.mp h
  obtain ⟨tx', htx, h⟩ := Option.map_eq_some_iff.mp h
  obtain ⟨rfl, rfl⟩ : q = p ∧ tx' = tx := ⟨congrArg Prod.fst h, congrArg Prod.snd h⟩
  exact ⟨hq, htx⟩

theorem status_eq_of_find {txID : String} {tx : TxState} (h : tc.find txID = some (p, tx)) :
    tc.status p = some tx.status := by
  rw [status, (find_eq_some h).2]
  rfl

theorem status_insert (h : tc.status p = some st) (tx : TxState) :
    (tc.insert tx).status p = some st := by
  obtain ⟨old, hold, rfl⟩ := Option.map_eq_some_iff.mp h
  have hlt := (List.getElem?_eq_some_iff.mp hold).1
  rw [status, insert, List.getElem?_append_left hlt, hold]
  rfl

theorem status_appendMessage (p q : ℕ) (msg : TxMessage) (now : ℤ) :
    (tc.appendMessage p msg now).status q = tc.status q := by
  rw [status, status, appendMessage, modify, List.getElem?_modify]
  cases tc.objects[q]? with
  | none => rfl
  | some tx =>
    show some (TxState.status (if p = q then _ else tx)) = some tx.status
    split
    · rfl
    · rfl

theorem status_setStatus_self (h : tc.status p = some st) (st' : TxStatus) (now : ℤ) :
    (tc.setStatus p st' now).status p = some st' := by
  obtain ⟨tx, htx, _⟩ := Option.map_eq_some_iff.mp h
  rw [status, setStatus, modify, List.getElem?_modify_eq, htx]
  rfl

theorem status_setStatus_ne (h : p ≠ q) (st' : TxStatus) (now : ℤ) :
    (tc.setStatus p st' now).status q = tc.status q := by
  rw [status, status, setStatus, modify, List.getElem?_modify_ne _ _ h]

/-- No transaction changes its status unless it is PENDING. -/
def KeepsSettled (tc tc' : TransactionCoordinator) : Prop :=
  ∀ p st, tc.status p = some st → st ≠ .pending → tc'.status p = some st

theorem KeepsSettled.trans {tc' tc'' : TransactionCoordinator} (h : tc.KeepsSettled tc')
    (h' : tc'.KeepsSettled tc'') : tc.KeepsSettled tc'' :=
  fun p st hst hne => h' p st (h p st hst hne) hne

theorem keepsSettled_setStatus (h : tc.status p = some .pending) (st' : TxStatus) (now : ℤ) :
    tc.KeepsSettled (tc.setStatus p st' now) := by
  intro q st hst hne
  by_cases heq : p = q
  · subst heq
    exact absurd (Option.some.inj (hst.symm.trans h)) hne
  · rw [status_setStatus_ne heq, hst]

theorem keepsSettled_beginTx (tc : TransactionCoordinator) (producerID : String)
    (nano randNano createdAt updatedAt : ℤ) :
    tc.KeepsSettled (tc.beginTx producerID nano randNano createdAt updatedAt).tc :=
  fun _ _ hst _ => status_insert hst _

theorem keepsSettled_addMessage (tc : TransactionCoordinator) (txID : String) (msg : TxMessage)
    (now : ℤ) : tc.KeepsSettled (tc.addMessage txID msg now).tc := by
  intro q st hst _
  rw [addMessage]
  split
  · exact hst
  split
  · exact hst
  · exact (status_appendMessage _ q msg now).trans hst

theorem keepsSettled_commitTx (tc : TransactionCoordinator) (txID : String) (now : ℤ) :
    tc.KeepsSettled (tc.commitTx txID now).tc := by
  rw [commitTx]
  split
  · exact fun _ _ hst _ => hst
  rename_i p tx hfind
  by_cases hpending : tx.status = .pending
  · rw [if_neg (not_not.mpr hpending)]
    exact keepsSettled_setStatus (by rw [status_eq_of_find hfind, hpending]) .committing now
  · rw [if_pos hpending]
    exact fun _ _ hst _ => hst

/-- A `CommitTx` that goes on found its transaction PENDING and left it COMMITTING. -/
theorem commitTx_ok {txID : String} {now : ℤ} (h : (tc.commitTx txID now).result = .ok p) :
    tc.status p = some .pending ∧ (tc.commitTx txID now).tc.status p = some .committing := by
  rw [commitTx] at h ⊢
  split at h
  · exact absurd h nofun
  rename_i q tx hfind
  by_cases hpending : tx.status = .pending
  · rw [if_neg (not_not.mpr hpending)] at h ⊢
    obtain rfl : q = p := Except.ok.inj h
    have hst := status_eq_of_find hfind
    exact ⟨by rw [hst, hpending], status_setStatus_self hst .committing now⟩
  · rw [if_pos hpending] at h
    exact absurd h nofun

/-- The sweep leaves the transactions alone that are not PENDING. -/
theorem keepsSettled_expire (now : ℤ) (out : Outcome Unit) (txID : String) :
    out.tc.KeepsSettled (expire now out txID).tc := by
  rw [expire]
  split
  · exact fun _ _ hst _ => hst
  rename_i p tx hfind
  split
  · rename_i hdue
    exact keepsSettled_setStatus (by rw [status_eq_of_find hfind, hdue.1]) .aborted now
  · exact fun _ _ hst _ => hst

theorem keepsSettled_foldl (now : ℤ) (order : List String) (out : Outcome Unit) :
    out.tc.KeepsSettled (order.foldl (expire now) out).tc := by
  induction order generalizing out with
  | nil => exact fun _ _ hst _ => hst
  | cons txID order ih => exact (keepsSettled_expire now out txID).trans (ih (expire now out txID))

end TransactionCoordinator

/-! ## The process -/

/-- A `CommitTx` that has set COMMITTING. -/
structure CommitCall where
  txID : String
  /-- The pointer `tx` of the function. -/
  tx : ℕ
  /-- What `doCommit` returned. -/
  err : Option (Except String Unit)

structure TcProc where
  tc : TransactionCoordinator
  /-- The memory at the last complete `persistTx`. -/
  saved : TransactionCoordinator
  calls : List CommitCall := []
  /-- The transactions for which `CommitTx` has returned success. -/
  committed : List ℕ := []
  /-- The transactions for which `RollbackTx` has returned success. -/
  rolledBack : List ℕ := []

/-- A critical section with its inputs; `doCommit` and `finishCommit` belong to a call
in progress. -/
inductive TcEvent where
  | beginTx (producerID : String) (nano randNano createdAt updatedAt : ℤ)
  | addMessage (txID : String) (msg : TxMessage) (now : ℤ)
  | commitTx (txID : String) (now : ℤ)
  | doCommit (k : ℕ)
  | finishCommit (k : ℕ) (now : ℤ)
  | rollbackTx (txID : String) (now : ℤ)
  | checkTimeouts (order : List String) (now : ℤ)
  /-- The process dies and `NewTransactionCoordinator` reads the log in this order. -/
  | crash (log : List TxState)

/-- `loadTxLog` on the transactions decoded from the file. -/
def loadTxLog (log : List TxState) : TransactionCoordinator :=
  log.foldl TransactionCoordinator.insert TransactionCoordinator.empty

namespace TcProc

/-- `NewTransactionCoordinator` on a log. -/
def boot (log : List TxState) : TcProc where
  tc := loadTxLog log
  saved := loadTxLog log

/-- The state after a critical section. -/
def after {α : Type} (s : TcProc) (out : Outcome α) : TcProc :=
  { s with tc := out.tc, saved := out.persisted.getLast?.getD s.saved }

/-- `CommitTx` goes on, or returns the error of its first section. -/
def onCommitTx (s : TcProc) (txID : String) (out : Outcome (Except String ℕ)) : TcProc :=
  match out.result with
  | .error _ => s.after out
  | .ok p => { s.after out with calls := s.calls ++ [{ txID, tx := p, err := none }] }

/-- `CommitTx` returns. -/
def onFinishCommit (s : TcProc) (k p : ℕ) (out : Outcome (Except String Unit)) : TcProc :=
  let s := { s.after out with calls := s.calls.eraseIdx k }
  match out.result with
  | .error _ => s
  | .ok () => { s with committed := s.committed ++ [p] }

/-- `RollbackTx` returns. -/
def onRollbackTx (s : TcProc) (txID : String) (out : Outcome (Except String Unit)) : TcProc :=
  match s.tc.find txID with
  | none => s.after out
  | some (p, _) => { s.after out with rolledBack := s.rolledBack ++ [p] }

def step (s : TcProc) : TcEvent → Option TcProc
  | .beginTx producerID nano randNano createdAt updatedAt =>
    some (s.after (s.tc.beginTx producerID nano randNano createdAt updatedAt))
  | .addMessage txID msg now => some (s.after (s.tc.addMessage txID msg now))
  | .commitTx txID now => some (s.onCommitTx txID (s.tc.commitTx txID now))
  | .doCommit k =>
    match s.calls[k]? with
    | some { txID, tx, err := none } =>
      some { s with calls := s.calls.set k { txID, tx, err := some (s.tc.doCommit txID) } }
    | _ => none
  | .finishCommit k now =>
    match s.calls[k]? with
    | some { txID := _, tx, err := some err } =>
      some (s.onFinishCommit k tx (s.tc.finishCommit tx err now))
    | _ => none
  | .rollbackTx txID now => some (s.onRollbackTx txID (s.tc.rollbackTx txID now))
  | .checkTimeouts order now =>
    if order.Perm s.tc.transactions.keys then some (s.after (s.tc.checkTimeouts order now))
    else none
  | .crash log => if log.Perm s.saved.txs then some (boot log) else none

section inversion

variable {s t : TcProc} {k : ℕ} {now : ℤ}

theorem step_doCommit (h : s.step (.doCommit k) = some t) :
    ∃ txID tx, s.calls[k]? = some { txID, tx, err := none } ∧
      t = { s with calls := s.calls.set k { txID, tx, err := some (s.tc.doCommit txID) } } := by
  rw [step] at h
  split at h
  · rename_i txID tx hcall
    exact ⟨txID, tx, hcall, (Option.some.inj h).symm⟩
  · exact absurd h nofun

theorem step_finishCommit (h : s.step (.finishCommit k now) = some t) :
    ∃ txID tx err, s.calls[k]? = some { txID, tx, err := some err } ∧
      t = s.onFinishCommit k tx (s.tc.finishCommit tx err now) := by
  rw [step] at h
  split at h
  · rename_i txID tx err hcall
    exact ⟨txID, tx, err, hcall, (Option.some.inj h).symm⟩
  · exact absurd h nofun

theorem step_checkTimeouts {order : List String} (h : s.step (.checkTimeouts order now) = some t) :
    order.Perm s.tc.transactions.keys ∧ t = s.after (s.tc.checkTimeouts order now) := by
  rw [step] at h
  split at h
  · rename_i hperm
    exact ⟨hperm, (Option.some.inj h).symm⟩
  · exact absurd h nofun

theorem step_crash {log : List TxState} (h : s.step (.crash log) = some t) :
    log.Perm s.saved.txs ∧ t = boot log := by
  rw [step] at h
  split at h
  · rename_i hperm
    exact ⟨hperm, (Option.some.inj h).symm⟩
  · exact absurd h nofun

end inversion

theorem tc_onCommitTx (s : TcProc) (txID : String) (out : Outcome (Except String ℕ)) :
    (s.onCommitTx txID out).tc = out.tc := by
  rw [onCommitTx]
  split
  · rfl
  · rfl

theorem tc_onFinishCommit (s : TcProc) (k p : ℕ) (out : Outcome (Except String Unit)) :
    (s.onFinishCommit k p out).tc = out.tc := by
  rw [onFinishCommit]
  split
  · rfl
  · rfl

theorem calls_onFinishCommit (s : TcProc) (k p : ℕ) (out : Outcome (Except String Unit)) :
    (s.onFinishCommit k p out).calls = s.calls.eraseIdx k := by
  rw [onFinishCommit]
  split
  · rfl
  · rfl

theorem tc_onRollbackTx (s : TcProc) (txID : String) (out : Outcome (Except String Unit)) :
    (s.onRollbackTx txID out).tc = out.tc := by
  rw [onRollbackTx]
  split
  · rfl
  · rfl

end TcProc

/-- The sections that change the status of PENDING transactions only. -/
def TcEvent.OnPending : TcEvent → Prop
  | .finishCommit _ _ | .rollbackTx _ _ | .crash _ => False
  | _ => True

namespace TcProc

theorem keepsSettled_step {s t : TcProc} {ev : TcEvent} (hev : ev.OnPending)
    (hst : s.step ev = some t) : s.tc.KeepsSettled t.tc := by
  cases ev with
  | beginTx producerID nano randNano createdAt updatedAt =>
    cases hst
    exact TransactionCoordinator.keepsSettled_beginTx s.tc _ _ _ _ _
  | addMessage txID msg now =>
    cases hst
    exact TransactionCoordinator.keepsSettled_addMessage s.tc _ _ _
  | commitTx txID now =>
    cases hst
    rw [tc_onCommitTx]
    exact TransactionCoordinator.keepsSettled_commitTx s.tc _ _
  | doCommit k =>
    obtain ⟨txID, tx, _, rfl⟩ := step_doCommit hst
    exact fun _ _ hp _ => hp
  | checkTimeouts order now =>
    obtain ⟨_, rfl⟩ := step_checkTimeouts hst
    exact TransactionCoordinator.keepsSettled_foldl now order ⟨s.tc, (), []⟩
  | finishCommit k now => exact hev.elim
  | rollbackTx txID now => exact hev.elim
  | crash log => exact hev.elim

/-- `RollbackTx` is called on no transaction that is COMMITTED or has a `CommitTx` in
progress; the process does not die. -/
def Orderly (s : TcProc) (ev : TcEvent) (_ : TcProc) : Prop :=
  match ev with
  | .rollbackTx txID _ =>
    ∀ x ∈ s.tc.find txID, x.2.status ≠ .committed ∧ ∀ call ∈ s.calls, call.tx ≠ x.1
  | .crash _ => False
  | _ => True

instance (s : TcProc) (ev : TcEvent) (t : TcProc) : Decidable (s.Orderly ev t) := by
  cases ev <;> unfold Orderly <;> infer_instance

end TcProc

/-! ## Outcomes -/

structure CommitsInv (s : TcProc) : Prop where
  committing : ∀ call ∈ s.calls, s.tc.status call.tx = some .committing
  distinct : (s.calls.map CommitCall.tx).Nodup
  committed : ∀ p ∈ s.committed, s.tc.status p = some .committed
  rolledBack : ∀ p ∈ s.rolledBack, s.tc.status p = some .aborted

/-- Every outcome of `s` is still there in `t`. -/
def KeepsOutcomes (s t : TcProc) : Prop :=
  ∀ p st, s.tc.status p = some st → st.Terminal → t.tc.status p = some st

namespace CommitsInv

open TransactionCoordinator

variable {s t : TcProc}

theorem boot (log : List TxState) : CommitsInv (TcProc.boot log) where
  committing := nofun
  distinct := List.nodup_nil
  committed := nofun
  rolledBack := nofun

/-- A section that keeps settled transactions and finishes no call. -/
theorem of_keepsSettled (h : CommitsInv s) (hkeep : s.tc.KeepsSettled t.tc)
    (hcalls : t.calls.map CommitCall.tx = s.calls.map CommitCall.tx)
    (hcommitted : t.committed = s.committed) (hrolled : t.rolledBack = s.rolledBack) :
    CommitsInv t := by
  refine ⟨fun call hcall => ?_, hcalls ▸ h.distinct, fun p hp => ?_, fun p hp => ?_⟩
  · have hmem : call.tx ∈ s.calls.map CommitCall.tx := hcalls ▸ List.mem_map_of_mem hcall
    obtain ⟨call', hcall', heq⟩ := List.mem_map.mp hmem
    exact hkeep _ _ (heq ▸ h.committing call' hcall') (by decide)
  · exact hkeep p _ (h.committed p (hcommitted ▸ hp)) (by decide)
  · exact hkeep p _ (h.rolledBack p (hrolled ▸ hp)) (by decide)

theorem onCommitTx (h : CommitsInv s) (txID : String) (now : ℤ) :
    CommitsInv (s.onCommitTx txID (s.tc.commitTx txID now)) := by
  have hkeep := keepsSettled_commitTx s.tc txID now
  have hafter : CommitsInv (s.after (s.tc.commitTx txID now)) :=
    h.of_keepsSettled hkeep rfl rfl rfl
  rw [TcProc.onCommitTx]
  split
  · exact hafter
  rename_i p hres
  obtain ⟨hpending, hcommitting⟩ := commitTx_ok hres
  refine ⟨fun call hcall => ?_, ?_, hafter.committed, hafter.rolledBack⟩
  · rcases List.mem_append.mp hcall with hcall | hcall
    · exact hafter.committing call hcall
    · obtain rfl := List.mem_singleton.mp hcall
      exact hcommitting
  · -- a transaction with a call in progress is not PENDING
    rw [List.map_append]
    refine List.nodup_append.mpr ⟨h.distinct, List.nodup_singleton p, fun q hq q' hq' heq => ?_⟩
    obtain ⟨call, hcall, rfl⟩ := List.mem_map.mp hq
    obtain rfl := List.mem_singleton.mp hq'
    rw [← heq, h.committing call hcall] at hpending
    exact absurd hpending (by decide)

/-- The calls that are left when one returns. -/
theorem map_eraseIdx (h : CommitsInv s) {k : ℕ} {call : CommitCall}
    (hcall : s.calls[k]? = some call) :
    (s.calls.eraseIdx k).map CommitCall.tx = (s.calls.map CommitCall.tx).erase call.tx := by
  obtain ⟨hk, heq⟩ := List.getElem?_eq_some_iff.mp hcall
  have herase := h.distinct.erase_getElem k (by rwa [List.length_map])
  rw [← heq, ← List.getElem_map CommitCall.tx (h := by rwa [List.length_map]), herase,
    List.eraseIdx_map]

theorem onFinishCommit (h : CommitsInv s) {k : ℕ} {call : CommitCall}
    (hcall : s.calls[k]? = some call) (err : Except String Unit) (now : ℤ) :
    CommitsInv (s.onFinishCommit k call.tx (s.tc.finishCommit call.tx err now)) := by
  have hst := h.committing call (List.mem_of_getElem? hcall)
  -- what is not COMMITTING keeps its status
  have hother : ∀ p st, s.tc.status p = some st → st ≠ .committing →
      (s.tc.finishCommit call.tx err now).tc.status p = some st := by
    intro p st hp hne
    by_cases heq : call.tx = p
    · subst heq
      exact absurd (Option.some.inj (hp.symm.trans hst)) hne
    · exact (status_setStatus_ne heq _ now).trans hp
  have hrest : CommitsInv { s.after (s.tc.finishCommit call.tx err now) with
      calls := s.calls.eraseIdx k } := by
    refine ⟨fun c hc => ?_, ?_, fun p hp => ?_, fun p hp => ?_⟩
    · -- no second call writes through the same pointer
      have hne : call.tx ≠ c.tx := by
        intro heq
        have hmem := List.mem_map_of_mem (f := CommitCall.tx) hc
        rw [h.map_eraseIdx hcall, ← heq] at hmem
        exact h.distinct.not_mem_erase hmem
      exact (status_setStatus_ne hne _ now).trans (h.committing c (List.mem_of_mem_eraseIdx hc))
    · show ((s.calls.eraseIdx k).map CommitCall.tx).Nodup
      rw [h.map_eraseIdx hcall]
      exact h.distinct.erase _
    · exact hother p _ (h.committed p hp) (by decide)
    · exact hother p _ (h.rolledBack p hp) (by decide)
  rw [TcProc.onFinishCommit]
  cases err with
  | error e => exact hrest
  | ok r =>
    refine ⟨hrest.committing, hrest.distinct, fun p hp => ?_, hrest.rolledBack⟩
    rcases List.mem_append.mp hp with hp | hp
    · exact hrest.committed p hp
    · obtain rfl := List.mem_singleton.mp hp
      exact status_setStatus_self hst .committed now

theorem onRollbackTx (h : CommitsInv s) {txID : String} {now : ℤ}
    (hg : s.Orderly (.rollbackTx txID now) t) :
    CommitsInv (s.onRollbackTx txID (s.tc.rollbackTx txID now)) := by
  rw [TcProc.onRollbackTx, rollbackTx]
  cases hfind : s.tc.find txID with
  | none => exact h.of_keepsSettled (fun _ _ hst _ => hst) rfl rfl rfl
  | some x =>
    obtain ⟨p, tx⟩ := x
    obtain ⟨hcommitted, hcalls⟩ := hg (p, tx) hfind
    have hst := status_eq_of_find hfind
    refine ⟨fun call hcall => ?_, h.distinct, fun q hq => ?_, fun q hq => ?_⟩
    · exact (status_setStatus_ne (hcalls call hcall).symm _ now).trans (h.committing call hcall)
    · by_cases heq : p = q
      · subst heq
        exact absurd (Option.some.inj (hst.symm.trans (h.committed p hq))) hcommitted
      · exact (status_setStatus_ne heq _ now).trans (h.committed q hq)
    · rcases List.mem_append.mp hq with hq | hq
      · by_cases heq : p = q
        · subst heq
          exact status_setStatus_self hst .aborted now
        · exact (status_setStatus_ne heq _ now).trans (h.rolledBack q hq)
      · obtain rfl := List.mem_singleton.mp hq
        exact status_setStatus_self hst .aborted now

/-- An orderly step keeps the calls at work on different COMMITTING transactions. -/
theorem step (h : CommitsInv s) {ev : TcEvent} (hg : s.Orderly ev t) (hst : s.step ev = some t) :
    CommitsInv t := by
  have hkeep := fun hev : ev.OnPending => TcProc.keepsSettled_step hev hst
  cases ev with
  | beginTx producerID nano randNano createdAt updatedAt =>
    cases hst
    exact h.of_keepsSettled (hkeep trivial) rfl rfl rfl
  | addMessage txID msg now =>
    cases hst
    exact h.of_keepsSettled (hkeep trivial) rfl rfl rfl
  | commitTx txID now =>
    cases hst
    exact h.onCommitTx txID now
  | doCommit k =>
    obtain ⟨txID, tx, hcall, rfl⟩ := TcProc.step_doCommit hst
    refine h.of_keepsSettled (hkeep trivial) ?_ rfl rfl
    -- the call keeps its pointer
    obtain ⟨hk, heq⟩ := List.getElem?_eq_some_iff.mp hcall
    have hk' : k < (s.calls.map CommitCall.tx).length := by rwa [List.length_map]
    have htx : (s.calls.map CommitCall.tx)[k] = tx := by rw [List.getElem_map, heq]
    show (s.calls.set k _).map CommitCall.tx = _
    rw [List.map_set]
    conv_rhs => rw [← List.set_getElem_self hk', htx]
  | finishCommit k now =>
    obtain ⟨txID, tx, err, hcall, rfl⟩ := TcProc.step_finishCommit hst
    exact h.onFinishCommit hcall err now
  | rollbackTx txID now =>
    cases hst
    exact h.onRollbackTx hg
  | checkTimeouts order now =>
    obtain ⟨_, rfl⟩ := TcProc.step_checkTimeouts hst
    exact h.of_keepsSettled (hkeep trivial) rfl rfl rfl
  | crash log => exact hg.elim

/-- An orderly step changes no outcome that has been reached. -/
theorem keepsOutcomes (h : CommitsInv s) {ev : TcEvent} (hg : s.Orderly ev t)
    (hst : s.step ev = some t) : KeepsOutcomes s t := by
  have hof := fun hev : ev.OnPending => TcProc.keepsSettled_step hev hst
  intro p st hp hterm
  cases ev with
  | finishCommit k now =>
    obtain ⟨txID, tx, err, hcall, rfl⟩ := TcProc.step_finishCommit hst
    rw [TcProc.tc_onFinishCommit]
    have hcommitting := h.committing _ (List.mem_of_getElem? hcall)
    have hne : tx ≠ p := by
      rintro rfl
      exact hterm.ne_committing (Option.some.inj (hp.symm.trans hcommitting))
    exact (status_setStatus_ne hne _ now).trans hp
  | rollbackTx txID now =>
    cases hst
    rw [TcProc.tc_onRollbackTx, rollbackTx]
    cases hfind : s.tc.find txID with
    | none => exact hp
    | some x =>
      obtain ⟨q, tx⟩ := x
      by_cases heq : q = p
      · -- not COMMITTED before, so ABORTED
        subst heq
        obtain rfl := Option.some.inj (hp.symm.trans (status_eq_of_find hfind))
        rw [hterm.resolve_left (hg _ hfind).1]
        exact status_setStatus_self hp .aborted now
      · exact (status_setStatus_ne heq _ now).trans hp
  | crash log => exact hg.elim
  | _ => exact hof trivial p st hp hterm.ne_pending

end CommitsInv

/-- **Outcomes are final** if `RollbackTx` is called on no transaction that is COMMITTED
or has a `CommitTx` in progress: a status COMMITTED or ABORTED never changes, and no
transaction has both a successful `CommitTx` and a successful `RollbackTx`. -/
theorem outcome_final {log : List TxState} {s t : TcProc}
    (hs : Run TcProc.step TcProc.Orderly (TcProc.boot log) s)
    (ht : Run TcProc.step TcProc.Orderly s t) :
    (∀ p st, s.tc.status p = some st → st.Terminal → t.tc.status p = some st) ∧
      ∀ p, ¬(p ∈ t.committed ∧ p ∈ t.rolledBack) := by
  have hinv : CommitsInv s := by
    refine hs.invariant (P := CommitsInv) (.boot log) ?_
    intro u ev v h hg hst
    exact h.step hg hst
  have hboth : CommitsInv t ∧ KeepsOutcomes s t := by
    refine ht.invariant (P := fun u => CommitsInv u ∧ KeepsOutcomes s u) ⟨hinv, ?_⟩ ?_
    · exact fun p st hp _ => hp
    · intro u ev v ⟨h, hkept⟩ hg hst
      refine ⟨h.step hg hst, fun p st hp hterm => ?_⟩
      exact h.keepsOutcomes hg hst p st (hkept p st hp hterm) hterm
  refine ⟨hboth.2, fun p ⟨hc, hr⟩ => ?_⟩
  have hst := (hboth.1.committed p hc).symm.trans (hboth.1.rolledBack p hr)
  exact absurd hst (by decide)

/-- The three critical sections of a `CommitTx` that is the only one. -/
def commitEvents (txID : String) : List TcEvent :=
  [.commitTx txID 2, .doCommit 0, .finishCommit 0 3]

/-- A transaction is committed, a second one rolled back. -/
theorem outcome_final_two :
    ∃ s t : TcProc, s.tc.status 0 = some .committed ∧ t.tc.status 0 = some .committed ∧
      t.tc.status 1 = some .aborted ∧ ∀ p, ¬(p ∈ t.committed ∧ p ∈ t.rolledBack) := by
  obtain ⟨s, t, u, hs, hg, hst, ht, hP⟩ : ∃ s t u,
      Run TcProc.step TcProc.Orderly (TcProc.boot []) s ∧
      s.Orderly (.beginTx "p" 5 5 5 5) t ∧ s.step (.beginTx "p" 5 5 5 5) = some t ∧
      Run TcProc.step TcProc.Orderly t u ∧
      (s.tc.status 0 = some .committed ∧ u.tc.status 1 = some .aborted) :=
    exists_step_of_execWith (.beginTx "p" 1 1 1 1 :: commitEvents "p-1-1") (.beginTx "p" 5 5 5 5)
      [.rollbackTx "p-5-5" 6] (by decide +kernel)
  have hfinal := outcome_final hs ((Run.refl.tail hg hst).trans ht)
  exact ⟨s, u, hP.1, hfinal.1 0 _ hP.1 (by decide), hP.2, hfinal.2⟩

/-- `RollbackTx` turns a COMMITTED transaction into an ABORTED one, and both calls
succeed. -/
theorem commit_then_rollback :
    ∃ s t, Run TcProc.step (fun _ _ _ => True) (TcProc.boot []) s ∧
      s.step (.rollbackTx "p-1-1" 4) = some t ∧
      s.tc.status 0 = some .committed ∧ t.tc.status 0 = some .aborted ∧
      0 ∈ t.committed ∧ 0 ∈ t.rolledBack :=
  exists_last_step_of_execWith (.beginTx "p" 1 1 1 1 :: commitEvents "p-1-1")
    (.rollbackTx "p-1-1" 4) (by decide +kernel)

end DistributedMQ.NameServer
