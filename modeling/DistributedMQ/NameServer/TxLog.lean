import DistributedMQ.NameServer.Transactions
import Mathlib.Data.List.Induction

/-!
# The transaction log (`nameserver/tc.go` lines 224–272)

`persistTx` truncates the log file and writes all transactions to it, in the order of
the map; `loadTxLog` reads what it can decode. Of `gob` only what its documentation
says is used (`Gob`): a complete file gives the transactions back, and a file that was
cut off gives the first ones.

- `record_loadTxLog_perm`: a complete log gives the memory back, in whatever order the
  map was written.
- `crash_atomic_iff`: a crash inside `persistTx` leaves the transactions as before or as
  after the operation exactly if there was no transaction before it.
- `resolvable_iff`: after a crash between two critical sections every transaction that
  has no outcome can still get one by `CommitTx` exactly if none was COMMITTING.
- `committing_forever`: nothing but `RollbackTx` ends a COMMITTING transaction whose
  `CommitTx` is gone.
-/

namespace DistributedMQ.NameServer

open Machine

namespace TransactionCoordinator

variable {tc tc' : TransactionCoordinator}

/-- The transaction under an id. -/
def record (tc : TransactionCoordinator) (txID : String) : Option TxState :=
  (tc.find txID).map Prod.snd

/-- The status of the transaction under an id. -/
def statusOf (tc : TransactionCoordinator) (txID : String) : Option TxStatus :=
  (tc.record txID).map TxState.status

theorem record_eq_some {txID : String} {tx : TxState} :
    tc.record txID = some tx ↔
      ∃ p, tc.transactions.lookup txID = some p ∧ tc.objects[p]? = some tx := by
  rw [record, find]
  constructor
  · intro h
    obtain ⟨⟨p, tx'⟩, hfind, rfl⟩ := Option.map_eq_some_iff.mp h
    exact ⟨p, find_eq_some hfind⟩
  · rintro ⟨p, hp, htx⟩
    rw [hp, Option.bind_some, htx]
    rfl

theorem txID_of_record {txID : String} {tx : TxState} (h : tc.record txID = some tx) :
    tx.txID = txID := by
  obtain ⟨p, hp, htx⟩ := record_eq_some.mp h
  obtain ⟨tx', htx', hid⟩ := tc.keyed txID p hp
  rwa [Option.some.inj (htx.symm.trans htx')]

theorem record_eq_none {txID : String} :
    tc.record txID = none ↔ tc.transactions.lookup txID = none := by
  constructor
  · intro h
    cases hp : tc.transactions.lookup txID with
    | none => rfl
    | some p =>
      obtain ⟨tx, htx, _⟩ := tc.keyed txID p hp
      exact absurd (h.symm.trans (record_eq_some.mpr ⟨p, hp, htx⟩)) nofun
  · intro h
    rw [record, find, h]
    rfl

theorem statusOf_eq_none {txID : String} :
    tc.statusOf txID = none ↔ tc.transactions.lookup txID = none := by
  rw [statusOf, Option.map_eq_none_iff, record_eq_none]

theorem record_insert (tc : TransactionCoordinator) (tx : TxState) (txID : String) :
    (tc.insert tx).record txID = if txID = tx.txID then some tx else tc.record txID := by
  split
  · rename_i heq
    refine record_eq_some.mpr ⟨tc.objects.length, ?_, List.getElem?_concat_length⟩
    rw [heq]
    exact AList.lookup_insert _
  · rename_i hne
    refine Option.ext fun tx' => ?_
    rw [record_eq_some, record_eq_some, insert, AList.lookup_insert_ne hne]
    refine exists_congr fun p => and_congr_right fun hp => ?_
    obtain ⟨old, hold, _⟩ := tc.keyed txID p hp
    rw [List.getElem?_append_left (List.getElem?_eq_some_iff.mp hold).1]

theorem mem_txs {tx : TxState} : tx ∈ tc.txs ↔ tc.record tx.txID = some tx := by
  rw [txs, List.mem_filterMap, record_eq_some]
  constructor
  · rintro ⟨p, hp, htx⟩
    obtain ⟨⟨txID, _⟩, hmem, rfl⟩ := List.mem_map.mp hp
    have hlookup : tc.transactions.lookup txID = some _ := AList.mem_lookup_iff.mpr hmem
    obtain ⟨tx', htx', rfl⟩ := tc.keyed txID _ hlookup
    obtain rfl := Option.some.inj (htx.symm.trans htx')
    exact ⟨_, hlookup, htx⟩
  · rintro ⟨p, hp, htx⟩
    exact ⟨p, List.mem_map_of_mem (f := Sigma.snd) (AList.mem_lookup_iff.mp hp), htx⟩

/-- The transactions of the map have different ids. -/
theorem nodup_txs (tc : TransactionCoordinator) : (tc.txs.map TxState.txID).Nodup := by
  have hkeys : ∀ l : List ((_ : String) × ℕ),
      (∀ x ∈ l, ∃ tx, tc.objects[x.2]? = some tx ∧ tx.txID = x.1) →
      (((l.map Sigma.snd).filterMap fun p => tc.objects[p]?).map TxState.txID) = l.keys := by
    intro l
    induction l with
    | nil => exact fun _ => rfl
    | cons x l ih =>
      intro hl
      obtain ⟨tx, htx, hid⟩ := hl x List.mem_cons_self
      rw [List.map_cons, List.filterMap_cons_some htx, List.map_cons, List.keys_cons, hid,
        ih fun y hy => hl y (List.mem_cons_of_mem x hy)]
  rw [txs, GoMap.values, hkeys tc.transactions.entries fun x hx =>
    tc.keyed x.1 x.2 (AList.mem_lookup_iff.mpr hx)]
  exact tc.transactions.nodupKeys

end TransactionCoordinator

open TransactionCoordinator

/-! ## Reading the log back -/

theorem loadTxLog_concat (log : List TxState) (tx : TxState) :
    loadTxLog (log ++ [tx]) = (loadTxLog log).insert tx := by
  rw [loadTxLog, List.foldl_append]
  rfl

theorem record_loadTxLog {log : List TxState} (hnodup : (log.map TxState.txID).Nodup)
    {txID : String} {tx : TxState} :
    (loadTxLog log).record txID = some tx ↔ tx ∈ log ∧ tx.txID = txID := by
  induction log using List.reverseRecOn with
  | nil => exact ⟨nofun, fun h => absurd h.1 List.not_mem_nil⟩
  | append_singleton log last ih =>
    rw [List.map_append, List.nodup_append] at hnodup
    rw [loadTxLog_concat, record_insert, List.mem_append, List.mem_singleton]
    by_cases heq : txID = last.txID
    · rw [if_pos heq]
      constructor
      · intro h
        cases h
        exact ⟨Or.inr rfl, heq.symm⟩
      · rintro ⟨hmem | rfl, hid⟩
        · exact absurd (hid.trans heq) (hnodup.2.2 _ (List.mem_map_of_mem hmem) _
            (List.mem_singleton_self _))
        · rfl
    · rw [if_neg heq, ih hnodup.1]
      refine and_congr_left fun hid => ⟨Or.inl, fun h => h.resolve_right ?_⟩
      rintro rfl
      exact heq hid.symm

/-- **Round trip**: a complete log, written in any order of the map. -/
theorem record_loadTxLog_perm {tc : TransactionCoordinator} {log : List TxState}
    (h : log.Perm tc.txs) : (loadTxLog log).record = tc.record := by
  funext txID
  have hnodup : (log.map TxState.txID).Nodup :=
    (h.map TxState.txID).nodup_iff.mpr tc.nodup_txs
  refine Option.ext fun tx => ?_
  rw [record_loadTxLog hnodup, h.mem_iff, mem_txs]
  constructor
  · rintro ⟨hrec, rfl⟩
    exact hrec
  · intro hrec
    have hid := txID_of_record hrec
    exact ⟨by rwa [hid], hid⟩

theorem statusOf_loadTxLog_perm {tc : TransactionCoordinator} {log : List TxState}
    (h : log.Perm tc.txs) : (loadTxLog log).statusOf = tc.statusOf := by
  funext txID
  rw [statusOf, statusOf, record_loadTxLog_perm h]

/-! ## A crash inside `persistTx` -/

/-- A stream encoder and its decoder, which reads until the first error: a file that is cut off gives
the first records. -/
structure Gob (Byte : Type) where
  encode : List TxState → List Byte
  decode : List Byte → List TxState
  decode_cut : ∀ log file, file <+: encode log → decode file <+: log

/-- The memory at each call of `persistTx` in a critical section. -/
def TcProc.persisted (s : TcProc) : TcEvent → List TransactionCoordinator
  | .beginTx producerID nano randNano createdAt updatedAt =>
    (s.tc.beginTx producerID nano randNano createdAt updatedAt).persisted
  | .addMessage txID msg now => (s.tc.addMessage txID msg now).persisted
  | .commitTx txID now => (s.tc.commitTx txID now).persisted
  | .doCommit _ => []
  | .finishCommit k now =>
    match s.calls[k]? with
    | some { txID := _, tx, err := some err } => (s.tc.finishCommit tx err now).persisted
    | _ => []
  | .rollbackTx txID now => (s.tc.rollbackTx txID now).persisted
  | .checkTimeouts order now => (s.tc.checkTimeouts order now).persisted
  | .crash _ => []

/-- The process may die with this file in one of the calls of `persistTx`: truncated,
and written up to some byte. -/
def TcProc.DiesWith {Byte : Type} (s : TcProc) (gob : Gob Byte) (ev : TcEvent)
    (file : List Byte) : Prop :=
  ∃ tc ∈ s.persisted ev, ∃ log : List TxState, log.Perm tc.txs ∧ file <+: gob.encode log

namespace TransactionCoordinator

variable {tc : TransactionCoordinator}

/-- What was saved last, if anything, is what is in memory now. -/
def Saved {α : Type} (tc : TransactionCoordinator) (out : Outcome α) : Prop :=
  out.persisted.getLast?.getD tc = out.tc

/-- A section on transactions that are in the map. -/
structure Updates {α : Type} (tc : TransactionCoordinator) (out : Outcome α) : Prop where
  transactions : out.tc.transactions = tc.transactions
  saved : tc.Saved out

namespace Updates

variable {α : Type}

theorem refl (tc : TransactionCoordinator) (result : α) : tc.Updates ⟨tc, result, []⟩ where
  transactions := rfl
  saved := rfl

/-- One more transaction is changed and the log written. -/
theorem concat {out : Outcome α} (h : tc.Updates out) (p : ℕ) (f : TxState → TxState)
    (hf : ∀ tx, (f tx).txID = tx.txID) (result : α) :
    tc.Updates ⟨out.tc.modify p f hf, result, out.persisted ++ [out.tc.modify p f hf]⟩ where
  transactions := h.transactions
  saved := by
    rw [Saved, List.getLast?_concat]
    rfl

theorem one (tc : TransactionCoordinator) (p : ℕ) (f : TxState → TxState)
    (hf : ∀ tx, (f tx).txID = tx.txID) (result : α) :
    tc.Updates ⟨tc.modify p f hf, result, [tc.modify p f hf]⟩ :=
  (refl tc result).concat p f hf result

end Updates

theorem updates_addMessage (tc : TransactionCoordinator) (txID : String) (msg : TxMessage)
    (now : ℤ) : tc.Updates (tc.addMessage txID msg now) := by
  rw [addMessage]
  split
  · exact .refl tc _
  split
  · exact .refl tc _
  · exact .one tc _ _ _ _

theorem updates_commitTx (tc : TransactionCoordinator) (txID : String) (now : ℤ) :
    tc.Updates (tc.commitTx txID now) := by
  rw [commitTx]
  split
  · exact .refl tc _
  split
  · exact .refl tc _
  · exact .one tc _ _ _ _

theorem updates_finishCommit (tc : TransactionCoordinator) (p : ℕ) (err : Except String Unit)
    (now : ℤ) : tc.Updates (tc.finishCommit p err now) :=
  .one tc p _ _ err

theorem updates_rollbackTx (tc : TransactionCoordinator) (txID : String) (now : ℤ) :
    tc.Updates (tc.rollbackTx txID now) := by
  rw [rollbackTx]
  split
  · exact .refl tc _
  · exact .one tc _ _ _ _

theorem Updates.expire {out : Outcome Unit} (h : tc.Updates out) (now : ℤ) (txID : String) :
    tc.Updates (TransactionCoordinator.expire now out txID) := by
  rw [TransactionCoordinator.expire]
  split
  · exact h
  split
  · exact h.concat _ _ _ ()
  · exact h

theorem updates_checkTimeouts (tc : TransactionCoordinator) (order : List String) (now : ℤ) :
    tc.Updates (tc.checkTimeouts order now) := by
  have hfold : ∀ out : Outcome Unit, tc.Updates out →
      tc.Updates (order.foldl (TransactionCoordinator.expire now) out) := by
    induction order with
    | nil => exact fun out h => h
    | cons txID order ih => exact fun out h => ih _ (h.expire now txID)
  exact hfold _ (.refl tc ())

theorem find_of_empty (h : tc.transactions = ∅) (txID : String) : tc.find txID = none := by
  rw [find, h]
  rfl

theorem txs_of_empty (h : tc.transactions = ∅) : tc.txs = [] := by
  rw [txs, h]
  rfl

theorem statusOf_of_empty (h : tc.transactions = ∅) : tc.statusOf = fun _ => none := by
  funext txID
  rw [statusOf, record, find_of_empty h]
  rfl

end TransactionCoordinator

namespace TcProc

variable {s t : TcProc} {ev : TcEvent}

/-- A section leaves the map alone or adds an id to it. -/
theorem transactions_step (hst : s.step ev = some t) (hev : s.persisted ev ≠ []) :
    t.tc.transactions = s.tc.transactions ∨
      ∃ txID p, t.tc.transactions = s.tc.transactions.insert txID p := by
  cases ev with
  | beginTx producerID nano randNano createdAt updatedAt =>
    cases hst
    exact Or.inr ⟨_, _, rfl⟩
  | addMessage txID msg now =>
    cases hst
    exact Or.inl (updates_addMessage ..).transactions
  | commitTx txID now =>
    cases hst
    rw [tc_onCommitTx]
    exact Or.inl (updates_commitTx ..).transactions
  | doCommit k => exact absurd rfl hev
  | finishCommit k now =>
    obtain ⟨txID, tx, err, _, rfl⟩ := step_finishCommit hst
    rw [tc_onFinishCommit]
    exact Or.inl (updates_finishCommit ..).transactions
  | rollbackTx txID now =>
    cases hst
    rw [tc_onRollbackTx]
    exact Or.inl (updates_rollbackTx ..).transactions
  | checkTimeouts order now =>
    obtain ⟨_, rfl⟩ := step_checkTimeouts hst
    exact Or.inl (updates_checkTimeouts ..).transactions
  | crash log => exact absurd rfl hev

/-- Without transactions, only the first `BeginTx` (or a stray `CommitTx`) writes the log,
and it writes what is in memory at its end. -/
theorem persisted_of_empty (hempty : s.tc.transactions = ∅) (hst : s.step ev = some t) :
    ∀ tc ∈ s.persisted ev, tc = t.tc ∧ tc.txs.length ≤ 1 := by
  intro tc htc
  -- with an empty map no call finds its transaction
  cases ev with
  | beginTx producerID nano randNano createdAt updatedAt =>
    cases hst
    obtain rfl := List.mem_singleton.mp htc
    refine ⟨rfl, (List.length_filterMap_le _ _).trans ?_⟩
    show (GoMap.values (AList.insert _ _ s.tc.transactions)).length ≤ 1
    rw [hempty]
    exact le_of_eq rfl
  | addMessage txID msg now =>
    rw [persisted, addMessage, find_of_empty hempty] at htc
    exact absurd htc List.not_mem_nil
  | commitTx txID now =>
    rw [persisted, commitTx, find_of_empty hempty] at htc
    exact absurd htc List.not_mem_nil
  | doCommit k => exact absurd htc List.not_mem_nil
  | finishCommit k now =>
    obtain ⟨txID, tx, err, hcall, rfl⟩ := step_finishCommit hst
    rw [persisted, hcall] at htc
    obtain rfl := List.mem_singleton.mp htc
    rw [tc_onFinishCommit]
    refine ⟨rfl, ?_⟩
    rw [show (s.tc.setStatus tx (finalStatus err) now).txs = [] from txs_of_empty hempty]
    exact Nat.zero_le 1
  | rollbackTx txID now =>
    rw [persisted, rollbackTx, find_of_empty hempty] at htc
    exact absurd htc List.not_mem_nil
  | checkTimeouts order now =>
    obtain ⟨hperm, _⟩ := step_checkTimeouts hst
    rw [hempty] at hperm
    obtain rfl : order = [] := hperm.eq_nil
    exact absurd htc List.not_mem_nil
  | crash log => exact absurd htc List.not_mem_nil

end TcProc

theorem eq_nil_or_eq_of_prefix {α : Type} {l l' : List α} (h : l' <+: l) (hlen : l.length ≤ 1) :
    l' = [] ∨ l' = l := by
  rcases Nat.eq_zero_or_pos l'.length with hzero | hpos
  · exact Or.inl (List.length_eq_zero_iff.mp hzero)
  · exact Or.inr (h.eq_of_length (by have := h.length_le; omega))

/-- **Crash-atomicity**: whatever is in the file when the process dies in `persistTx`, it
gives the transactions as before or as after the critical section, exactly if there was no
transaction before it. -/
theorem crash_atomic_iff {Byte : Type} (gob : Gob Byte) {s t : TcProc} {ev : TcEvent}
    (hst : s.step ev = some t) (hpersist : s.persisted ev ≠ []) :
    (∀ file, s.DiesWith gob ev file →
      (loadTxLog (gob.decode file)).statusOf = s.tc.statusOf ∨
        (loadTxLog (gob.decode file)).statusOf = t.tc.statusOf) ↔
      s.tc.transactions = ∅ := by
  have hnil : gob.decode [] = [] := List.prefix_nil.mp (gob.decode_cut [] [] (List.nil_prefix))
  constructor
  · intro h
    -- right after the truncation nothing is left
    obtain ⟨tc, tcs, htcs⟩ := List.exists_cons_of_ne_nil hpersist
    have hdies : s.DiesWith gob ev [] :=
      ⟨tc, htcs ▸ List.mem_cons_self, tc.txs, List.Perm.refl _, List.nil_prefix⟩
    by_contra hne
    obtain ⟨txID, p, hp⟩ := GoMap.exists_lookup hne
    have hbefore : s.tc.transactions.lookup txID ≠ none := by rw [hp]; nofun
    have hafter : t.tc.transactions.lookup txID ≠ none := by
      rcases TcProc.transactions_step hst hpersist with htr | ⟨_, _, htr⟩
      · rwa [htr]
      · rw [htr]
        exact GoMap.lookup_insert_ne_none hbefore
    have hlost : (loadTxLog (gob.decode [])).statusOf txID = none := by rw [hnil]; rfl
    rcases h [] hdies with heq | heq
    · exact hbefore (statusOf_eq_none.mp (heq ▸ hlost))
    · exact hafter (statusOf_eq_none.mp (heq ▸ hlost))
  · rintro hempty file ⟨tc, htc, log, hperm, hfile⟩
    obtain ⟨rfl, hlen⟩ := TcProc.persisted_of_empty hempty hst tc htc
    rcases eq_nil_or_eq_of_prefix (gob.decode_cut log file hfile) (hperm.length_eq ▸ hlen)
      with hcut | hcut
    · rw [hcut, statusOf_of_empty hempty]
      exact Or.inl rfl
    · rw [hcut]
      exact Or.inr (statusOf_loadTxLog_perm hperm)

/-- A file of transactions. -/
def plainGob : Gob TxState where
  encode := id
  decode := id
  decode_cut := fun _ _ h => h

/-- The first `BeginTx` is crash-atomic. -/
theorem crash_atomic_iff_first :
    ∃ t, (TcProc.boot []).step (.beginTx "p" 1 1 1 1) = some t ∧
      ∀ file, (TcProc.boot []).DiesWith plainGob (.beginTx "p" 1 1 1 1) file →
        (loadTxLog (plainGob.decode file)).statusOf = (TcProc.boot []).tc.statusOf ∨
          (loadTxLog (plainGob.decode file)).statusOf = t.tc.statusOf := by
  have hpersist : (TcProc.boot []).persisted (.beginTx "p" 1 1 1 1) ≠ [] := List.cons_ne_nil _ _
  exact ⟨_, rfl, (crash_atomic_iff plainGob rfl hpersist).mpr rfl⟩

/-- A transaction with the outcome COMMITTED. -/
def committedTx : TxState where
  txID := "p-1-1"
  status := .committed
  producerID := "p"
  partitionInfo := []
  createdAt := 1
  updatedAt := 3

/-- Another producer begins a transaction and the process dies when the file is truncated:
the committed transaction is gone. -/
theorem truncation_loses_committed :
    ∃ t, (TcProc.boot [committedTx]).step (.beginTx "q" 5 5 5 5) = some t ∧
      (TcProc.boot [committedTx]).DiesWith plainGob (.beginTx "q" 5 5 5 5) [] ∧
      (TcProc.boot [committedTx]).tc.statusOf "p-1-1" = some .committed ∧
      t.tc.statusOf "p-1-1" = some .committed ∧
      (loadTxLog (plainGob.decode [])).statusOf "p-1-1" = none := by
  refine ⟨_, rfl, ?_, ?_, ?_, ?_⟩
  · exact ⟨_, List.mem_singleton_self _, _, List.Perm.refl _, List.nil_prefix⟩
  · decide +kernel
  · decide +kernel
  · decide +kernel

/-! ## A crash between two critical sections -/

namespace TcProc

variable {s t : TcProc} {ev : TcEvent}

theorem saved_after {α : Type} {out : Outcome α} (h : s.saved = s.tc) (hout : s.tc.Updates out) :
    (s.after out).saved = (s.after out).tc := by
  show out.persisted.getLast?.getD s.saved = out.tc
  rw [h]
  exact hout.saved

/-- **Step**: outside the critical sections the log is up to date. -/
theorem saved_step (h : s.saved = s.tc) (hst : s.step ev = some t) : t.saved = t.tc := by
  cases ev with
  | beginTx producerID nano randNano createdAt updatedAt =>
    cases hst
    rfl
  | addMessage txID msg now =>
    cases hst
    exact saved_after h (updates_addMessage ..)
  | commitTx txID now =>
    cases hst
    have hafter := saved_after h (updates_commitTx s.tc txID now)
    -- the answer to the caller does not touch the log
    rw [onCommitTx]
    split
    · exact hafter
    · exact hafter
  | doCommit k =>
    obtain ⟨txID, tx, _, rfl⟩ := step_doCommit hst
    exact h
  | finishCommit k now =>
    obtain ⟨txID, tx, err, _, rfl⟩ := step_finishCommit hst
    have hafter := saved_after h (updates_finishCommit s.tc tx err now)
    rw [onFinishCommit]
    split
    · exact hafter
    · exact hafter
  | rollbackTx txID now =>
    cases hst
    have hafter := saved_after h (updates_rollbackTx s.tc txID now)
    rw [onRollbackTx]
    split
    · exact hafter
    · exact hafter
  | checkTimeouts order now =>
    obtain ⟨_, rfl⟩ := step_checkTimeouts hst
    exact saved_after h (updates_checkTimeouts ..)
  | crash log =>
    obtain ⟨_, rfl⟩ := step_crash hst
    rfl

/-- No `RollbackTx`, and no crash. -/
def WithoutRollback (_ : TcProc) (ev : TcEvent) (_ : TcProc) : Prop :=
  match ev with
  | .rollbackTx _ _ | .crash _ => False
  | _ => True

/-- The sections of `CommitTx` and the sweeps. -/
def CommitsOrSweeps (_ : TcProc) (ev : TcEvent) (_ : TcProc) : Prop :=
  match ev with
  | .commitTx _ _ | .doCommit _ | .finishCommit _ _ | .checkTimeouts _ _ => True
  | _ => False

theorem withoutRollback_of_commitsOrSweeps (h : s.CommitsOrSweeps ev t) :
    s.WithoutRollback ev t := by
  cases ev with
  | rollbackTx txID now => exact h
  | crash log => exact h
  | _ => trivial

/-- A COMMITTING transaction whose `CommitTx` is gone. -/
structure Stranded (s : TcProc) (p : ℕ) : Prop where
  committing : s.tc.status p = some .committing
  noCall : ∀ call ∈ s.calls, call.tx ≠ p

/-- **Step**: only `RollbackTx` can change it. -/
theorem Stranded.step {p : ℕ} (h : s.Stranded p) (hg : s.WithoutRollback ev t)
    (hst : s.step ev = some t) : t.Stranded p := by
  have hof := fun hev : ev.OnPending =>
    TcProc.keepsSettled_step hev hst p .committing h.committing (by decide)
  cases ev with
  | beginTx producerID nano randNano createdAt updatedAt =>
    refine ⟨hof trivial, ?_⟩
    cases hst
    exact h.noCall
  | addMessage txID msg now =>
    refine ⟨hof trivial, ?_⟩
    cases hst
    exact h.noCall
  | commitTx txID now =>
    refine ⟨hof trivial, ?_⟩
    cases hst
    rw [onCommitTx]
    split
    · exact h.noCall
    · rename_i q hres
      intro call hcall
      rcases List.mem_append.mp hcall with hcall | hcall
      · exact h.noCall call hcall
      · -- a new call belongs to a PENDING transaction
        obtain rfl := List.mem_singleton.mp hcall
        rintro rfl
        exact absurd ((commitTx_ok hres).1.symm.trans h.committing) (by decide)
  | doCommit k =>
    refine ⟨hof trivial, ?_⟩
    obtain ⟨txID, tx, hcall, rfl⟩ := step_doCommit hst
    intro call hmem
    rcases List.mem_or_eq_of_mem_set hmem with hmem | rfl
    · exact h.noCall call hmem
    · exact h.noCall { txID, tx, err := none } (List.mem_of_getElem? hcall)
  | finishCommit k now =>
    obtain ⟨txID, tx, err, hcall, rfl⟩ := step_finishCommit hst
    -- the call that finishes is for another transaction
    have hne := h.noCall _ (List.mem_of_getElem? hcall)
    constructor
    · rw [tc_onFinishCommit]
      exact (status_setStatus_ne hne _ now).trans h.committing
    · intro call hmem
      rw [calls_onFinishCommit] at hmem
      exact h.noCall call (List.mem_of_mem_eraseIdx hmem)
  | checkTimeouts order now =>
    refine ⟨hof trivial, ?_⟩
    obtain ⟨_, rfl⟩ := step_checkTimeouts hst
    exact h.noCall
  | rollbackTx txID now => exact hg.elim
  | crash log => exact hg.elim

/-- Without `RollbackTx` a stranded transaction stays COMMITTING. -/
theorem Stranded.of_run {p : ℕ} (h : s.Stranded p) (hrun : Run TcProc.step WithoutRollback s t) :
    t.Stranded p := by
  refine hrun.invariant (P := fun u => u.Stranded p) h ?_
  intro u ev v hu hg hst
  exact hu.step hg hst

/-- A PENDING transaction gets its outcome by `CommitTx`. -/
theorem exists_outcome_of_pending (hcalls : s.calls = []) {txID : String} {p : ℕ} {tx : TxState}
    (hfind : s.tc.find txID = some (p, tx)) (hpending : tx.status = .pending) :
    ∃ u, Run TcProc.step CommitsOrSweeps s u ∧ ∃ st, u.tc.status p = some st ∧ st.Terminal := by
  have hcommit : s.tc.commitTx txID 0 =
      ⟨s.tc.setStatus p .committing 0, .ok p, [s.tc.setStatus p .committing 0]⟩ := by
    rw [commitTx, hfind]
    exact if_neg (not_not.mpr hpending)
  -- the three critical sections of the call
  obtain ⟨s₁, hs₁, htc₁, hcalls₁⟩ : ∃ s₁, s.step (.commitTx txID 0) = some s₁ ∧
      s₁.tc = s.tc.setStatus p .committing 0 ∧ s₁.calls = [{ txID, tx := p, err := none }] := by
    refine ⟨_, rfl, ?_, ?_⟩
    · rw [tc_onCommitTx, hcommit]
    · rw [hcommit]
      show s.calls ++ [{ txID, tx := p, err := none }] = _
      rw [hcalls]
      rfl
  obtain ⟨s₂, err, hs₂, htc₂, hcalls₂⟩ : ∃ s₂ err, s₁.step (.doCommit 0) = some s₂ ∧
      s₂.tc = s₁.tc ∧ s₂.calls = [{ txID, tx := p, err := some err }] := by
    rw [step, hcalls₁]
    exact ⟨_, s₁.tc.doCommit txID, rfl, rfl, rfl⟩
  obtain ⟨s₃, hs₃, htc₃⟩ : ∃ s₃, s₂.step (.finishCommit 0 0) = some s₃ ∧
      s₃.tc = s₂.tc.setStatus p (finalStatus err) 0 := by
    rw [step, hcalls₂]
    exact ⟨_, rfl, tc_onFinishCommit ..⟩
  refine ⟨s₃, ((Run.refl.tail (by exact trivial) hs₁).tail (by exact trivial) hs₂).tail
    (by exact trivial) hs₃, finalStatus err, ?_, ?_⟩
  · have hst := status_setStatus_self (status_eq_of_find hfind) .committing 0
    rw [htc₃, htc₂, htc₁]
    exact status_setStatus_self hst _ 0
  · cases err with
    | error e => exact Or.inr rfl
    | ok r => exact Or.inl rfl

end TcProc

/-- **Nothing is stranded** exactly if no transaction is COMMITTING when the process dies:
then every transaction that is loaded without an outcome can get one by `CommitTx` or a
sweep. -/
theorem resolvable_iff {log log' : List TxState} {s t : TcProc}
    (hs : Run TcProc.step (fun _ _ _ => True) (TcProc.boot log) s)
    (hcrash : s.step (.crash log') = some t) :
    (∀ txID p tx, t.tc.find txID = some (p, tx) → ¬tx.status.Terminal →
      ∃ u, Run TcProc.step TcProc.CommitsOrSweeps t u ∧
        ∃ st, u.tc.status p = some st ∧ st.Terminal) ↔
      ∀ txID, s.tc.statusOf txID ≠ some .committing := by
  -- the log has what the memory had when the process died
  have hsaved : s.saved = s.tc := by
    refine hs.invariant (P := fun u => u.saved = u.tc) rfl ?_
    intro u ev v hu _ hst
    exact TcProc.saved_step hu hst
  obtain ⟨hperm, rfl⟩ := TcProc.step_crash hcrash
  rw [hsaved] at hperm
  have hloaded : (TcProc.boot log').tc.statusOf = s.tc.statusOf := statusOf_loadTxLog_perm hperm
  rw [← hloaded]
  constructor
  -- only `RollbackTx` could end it
  · intro h txID hcommitting
    obtain ⟨tx, hrec, hst⟩ := Option.map_eq_some_iff.mp hcommitting
    obtain ⟨⟨p, tx'⟩, hfind, rfl⟩ := Option.map_eq_some_iff.mp hrec
    have hstatus : (TcProc.boot log').tc.status p = some .committing := by
      rw [status_eq_of_find hfind]
      exact congrArg some hst
    obtain ⟨u, hrun, st, hu, hterm⟩ := h txID p tx' hfind (by rw [hst]; decide)
    have hrun' : Run TcProc.step TcProc.WithoutRollback (TcProc.boot log') u :=
      hrun.mono fun _ _ _ hg => TcProc.withoutRollback_of_commitsOrSweeps hg
    have hstranded := TcProc.Stranded.of_run ⟨hstatus, nofun⟩ hrun'
    exact hterm.ne_committing (Option.some.inj (hu.symm.trans hstranded.committing))
  · intro h txID p tx hfind hopen
    refine TcProc.exists_outcome_of_pending rfl hfind ?_
    have hne : tx.status ≠ .committing := by
      intro hst
      refine h txID ?_
      rw [statusOf, record, hfind]
      exact congrArg some hst
    cases hst : tx.status with
    | pending => rfl
    | committing => exact absurd hst hne
    | committed => exact absurd (Or.inl hst) hopen
    | aborted => exact absurd (Or.inr hst) hopen

/-- A PENDING transaction, as it is in the log. -/
def pendingTx : TxState where
  txID := "p-1-1"
  status := .pending
  producerID := "p"
  partitionInfo := []
  createdAt := 1
  updatedAt := 1

/-- A PENDING transaction survives a crash and gets its outcome. -/
theorem resolvable_iff_pending :
    ∃ u, Run TcProc.step TcProc.CommitsOrSweeps (TcProc.boot [pendingTx]) u ∧
      ∃ st, u.tc.status 0 = some st ∧ st.Terminal := by
  have hcrash : (TcProc.boot [pendingTx]).step (.crash [pendingTx]) =
      some (TcProc.boot [pendingTx]) := by
    rw [TcProc.step]
    exact if_pos (by decide +kernel)
  refine (resolvable_iff Run.refl hcrash).mpr (fun txID hst => ?_) "p-1-1" 0 pendingTx ?_ (by decide)
  · obtain ⟨tx, hrec, hcommitting⟩ := Option.map_eq_some_iff.mp hst
    have hnodup : ([pendingTx].map TxState.txID).Nodup := List.nodup_singleton _
    obtain ⟨hmem, _⟩ := (record_loadTxLog hnodup).mp hrec
    rw [List.mem_singleton.mp hmem] at hcommitting
    exact absurd hcommitting (by decide)
  · decide +kernel

/-- The process dies after the first critical section of `CommitTx`. The transaction is
loaded as COMMITTING and stays so as long as nobody calls `RollbackTx`. -/
theorem committing_forever :
    ∃ s t, Run TcProc.step (fun _ _ _ => True) (TcProc.boot []) s ∧
      s.step (.crash [{ pendingTx with status := .committing, updatedAt := 2 }]) = some t ∧
      t.tc.statusOf "p-1-1" = some .committing ∧
      ∀ u, Run TcProc.step TcProc.WithoutRollback t u → u.tc.status 0 = some .committing := by
  obtain ⟨s, t, hs, hst, hof, hstatus, hcalls⟩ : ∃ s t,
      Run TcProc.step (fun _ _ _ => True) (TcProc.boot []) s ∧
      s.step (.crash [{ pendingTx with status := .committing, updatedAt := 2 }]) = some t ∧
      t.tc.statusOf "p-1-1" = some .committing ∧ t.tc.status 0 = some .committing ∧
      ∀ call ∈ t.calls, call.tx ≠ 0 :=
    exists_last_step_of_execWith [TcEvent.beginTx "p" 1 1 1 1, .commitTx "p-1-1" 2]
      (.crash [{ pendingTx with status := .committing, updatedAt := 2 }]) (by decide +kernel)
  exact ⟨s, t, hs, hst, hof, fun u hu => (TcProc.Stranded.of_run ⟨hstatus, hcalls⟩ hu).committing⟩

end DistributedMQ.NameServer
