import LockingDb.Proofs.StaleSavepoints

namespace LockingDb

/-- What happens to the log of a session: an action is added at its end, its end is cut off, or it is
cleared with the transaction. -/
inductive LogMove where
  | push (a : RowAction)
  | truncate (start : Nat)
  | clear

namespace SessionTx

def rework (tx : SessionTx) : LogMove → SessionTx
  | .push a => tx.pushAction a
  | .truncate start => (tx.truncateActions start).2
  | .clear => tx.clear

def reworkAll (tx : SessionTx) (moves : List LogMove) : SessionTx := moves.foldl rework tx

/-- The index of rows tells what a scan of the log would tell: the places of a row, in increasing
order and none past the end of the log, whether there are any, whether the row was inserted, and which
rows have any. -/
structure MirrorsLog (tx : SessionTx) : Prop where
  listed : ∀ row places, tx.rowIndex.get? row = some places →
    places ≠ [] ∧ places.Pairwise (· < ·) ∧
      ∀ i, i ∈ places ↔ ∃ a, tx.actions[i]? = some a ∧ a.row = row
  unlisted : ∀ row, tx.rowIndex.get? row = none ↔ ∀ a ∈ tx.actions, a.row ≠ row
  within : ∀ row, ∀ i ∈ tx.placesOf row, i < tx.actions.length
  has : ∀ row, tx.hasRowActions row = tx.actions.any (·.row = row)
  inserted : ∀ row, tx.insertedHere row = tx.actions.any fun a => a.row = row ∧ a.type = .insert
  touched : tx.touchedRows = (IdSet.ofList (tx.actions.map RowAction.row)).toList

variable {tx tx' : SessionTx}

theorem indexes_rework (h : Indexes tx.rowIndex tx.actions) (m : LogMove) :
    Indexes (tx.rework m).rowIndex (tx.rework m).actions := by
  cases m with
  | push a => exact indexes_pushAction h
  | truncate start => exact indexes_truncateActions h start
  | clear => exact indexes_empty

theorem indexes_reworkAll (h : Indexes tx.rowIndex tx.actions) (moves : List LogMove) :
    Indexes (tx.reworkAll moves).rowIndex (tx.reworkAll moves).actions := by
  induction moves generalizing tx with
  | nil => exact h
  | cons m rest ih => exact ih (indexes_rework h m)

/-- A move of the log looks at nothing but the log. -/
theorem rework_log_congr (h : tx'.log.2 = tx.log.2) (m : LogMove) :
    (tx'.rework m).log.2 = (tx.rework m).log.2 := by
  obtain ⟨hactions, hindex⟩ : tx'.actions = tx.actions ∧ tx'.rowIndex = tx.rowIndex := Prod.mk.inj h
  cases m with
  | push a => simp only [rework, log, pushAction, placesOf, hactions, hindex]
  | truncate start =>
    simp only [rework, truncateActions, hactions]
    split
    next => exact h
    next => simp only [log, hindex]
  | clear => rfl

theorem reworkAll_log_congr (h : tx'.log.2 = tx.log.2) (moves : List LogMove) :
    (tx'.reworkAll moves).log.2 = (tx.reworkAll moves).log.2 := by
  induction moves generalizing tx tx' with
  | nil => exact h
  | cons m rest ih => exact ih (rework_log_congr h m)

end SessionTx

section Index

variable {index : IdMap (List Nat)} {as : List RowAction} {row : RowId} {places : List Nat}

theorem placesIn_increasing : (placesIn row as).Pairwise (· < ·) := List.pairwise_lt_range.filter _

theorem Indexes.get?_eq_some (h : Indexes index as) (hfound : index.get? row = some places) :
    places = placesIn row as ∧ places ≠ [] := by
  rw [h row] at hfound
  split at hfound
  next => cases hfound
  next hsome =>
    cases hfound
    exact ⟨rfl, hsome⟩

theorem Indexes.isSome (h : Indexes index as) :
    (index.get? row).isSome = true ↔ ∃ a ∈ as, a.row = row := by
  rw [Option.isSome_iff_ne_none, Ne, h.get?_eq_none]
  simp only [ne_eq, not_forall, not_not, exists_prop]

end Index

theorem SessionTx.mirrorsLog {tx : SessionTx} (h : Indexes tx.rowIndex tx.actions) :
    tx.MirrorsLog where
  listed row places hfound := by
    obtain ⟨rfl, hsome⟩ := h.get?_eq_some hfound
    exact ⟨hsome, placesIn_increasing, fun _ => mem_placesIn⟩
  unlisted row := h.get?_eq_none
  within row i hi := by
    rw [placesOf, h.getD] at hi
    obtain ⟨a, ha, -⟩ := mem_placesIn.mp hi
    exact (List.getElem?_eq_some_iff.mp ha).1
  has row := by
    rw [Bool.eq_iff_iff, hasRowActions, IdMap.contains_eq, h.isSome, List.any_eq_true]
    simp only [decide_eq_true_eq]
  inserted row := by
    rw [Bool.eq_iff_iff, insertedHere_iff h, List.any_eq_true]
    simp only [decide_eq_true_eq]
  touched := by
    have hkeys : (⟨tx.rowIndex.keys, tx.rowIndex.increasing⟩ : IdSet) =
        IdSet.ofList (tx.actions.map RowAction.row) := by
      refine IdSet.ext fun row => IdMap.mem_keys.trans ?_
      rw [h.isSome, IdSet.mem_ofList, List.mem_map]
    exact congrArg IdSet.toList hkeys

namespace Coordinator

variable {c c' c₂ : Coordinator} {s : SessionId} {k : CoordinatorCall} {now : Timestamp}
  {start i : Nat} {store : TableId} {row : Row}

/-- The log of a session has changed by moves of the log only. -/
def LogMoved (s : SessionId) (c c' : Coordinator) : Prop :=
  ∃ moves, (c'.tx s).log.2 = ((c.tx s).reworkAll moves).log.2

theorem LogMoved.trans (h : LogMoved s c c') (h₂ : LogMoved s c' c₂) : LogMoved s c c₂ := by
  obtain ⟨moves, hmoves⟩ := h
  obtain ⟨moves₂, hmoves₂⟩ := h₂
  refine ⟨moves ++ moves₂, ?_⟩
  rw [hmoves₂, SessionTx.reworkAll_log_congr hmoves, SessionTx.reworkAll, SessionTx.reworkAll,
    SessionTx.reworkAll, List.foldl_append]

theorem logMoved_of_same (h : (c'.tx s).log.2 = (c.tx s).log.2) : LogMoved s c c' := ⟨[], h⟩

theorem Quiet.logMoved (h : Quiet s c c') : LogMoved s c c' := logMoved_of_same (log_of_work h.work)

/-- It does not matter how the log was emptied: to clear it does the same. -/
theorem logMoved_of_cleared (h : (c'.tx s).log.2 = ([], ∅)) : LogMoved s c c' := ⟨[.clear], h⟩

theorem logMoved_undoTo : LogMoved s c (c.undoTo s start now).2 := by
  refine ⟨[.truncate start], ?_⟩
  rw [log_undoTo, ← SessionTx.truncateActions_actions]
  rfl

theorem logMoved_rollbackStatement : LogMoved s c (c.rollbackStatement s) := by
  have hundone : LogMoved s c (c.undoTo s (c.tx s).statementStart (c.tx s).actionAt).2 :=
    logMoved_undoTo
  unfold rollbackStatement
  dsimp only
  generalize c.undoTo s (c.tx s).statementStart (c.tx s).actionAt = undone at hundone
  obtain ⟨rows, c₁⟩ := undone
  have hended : LogMoved s (c₁.releaseRows rows) ((c₁.releaseRows rows).endStatement s) :=
    quiet_endStatement.logMoved
  exact hundone.trans ((logMoved_of_same rfl).trans hended)

theorem logMoved_rollbackToIndex : LogMoved s c (c.rollbackToIndex s i).2 := by
  unfold rollbackToIndex
  split
  next => exact logMoved_of_same rfl
  next savepoint _ =>
    have hundone : LogMoved s c (c.undoTo s savepoint.logLength savepoint.timestamp).2 :=
      logMoved_undoTo
    generalize c.undoTo s savepoint.logLength savepoint.timestamp = undone at hundone
    obtain ⟨rows, c₁⟩ := undone
    refine hundone.trans (logMoved_of_same ?_)
    show ((c₁.updateTx s (·.truncateSavepoints (i + 1))).tx s).log.2 = (c₁.tx s).log.2
    rw [tx_updateTx_self]
    rfl

theorem logMoved_rollback : LogMoved s c (c.rollback s) := by
  unfold rollback
  exact logMoved_of_cleared (congrArg Prod.snd log_closeTx)

theorem logMoved_commit : LogMoved s c (c.commit s).2 := by
  have hcommits := c.commit_commits s
  generalize c.commitEvent? s = e, (c.commit s).2 = c' at hcommits
  cases hcommits with
  | refused habort => exact logMoved_of_same rfl
  | failed habort hlog => exact (logMoved_of_same rfl).trans logMoved_rollback
  | done habort hlog => exact logMoved_of_cleared (congrArg Prod.snd log_closeTx)

theorem logMoved_unregister : LogMoved s c (c.unregister s) := by
  have hleft (c₁ : Coordinator) : LogMoved s c₁
      { c₁.withdraw s with registered := (c₁.withdraw s).registered.erase s } :=
    logMoved_of_same (log_of_work quiet_withdraw.work)
  unfold unregister
  dsimp only
  split
  next => exact logMoved_rollback.trans (hleft _)
  next => exact hleft c

theorem logMoved_recordInsert : LogMoved s c (c.recordInsert s store row).2 := by
  unfold recordInsert
  split
  next => exact logMoved_of_same rfl
  next =>
    refine ⟨[.push (.insert s (c.tx s).actionAt store row)], ?_⟩
    rw [tx_updateTx_self]
    rfl

theorem logMoved_recordDelete : LogMoved s c (c.recordDelete s store row).2 := by
  unfold recordDelete
  split
  next => exact logMoved_of_same rfl
  next =>
    split
    next => exact logMoved_of_same rfl
    next =>
      refine ⟨[.push (.delete s (c.tx s).actionAt store row ((c.tx s).insertedHere row.id))], ?_⟩
      rw [tx_updateTx_self]
      rfl

theorem logMoved_own (hcaller : k.caller? = some s) : LogMoved s c (c.perform k) := by
  cases k with
  | register level => cases hcaller
  | change y k => cases hcaller
  | outside storage journal => cases hcaller
  | unregister y => cases hcaller; exact logMoved_unregister
  | beginTransaction y => cases hcaller; exact quiet_beginTransaction.logMoved
  | beginStatement y r => cases hcaller; exact (beginStatement_begins c s r).quiet.logMoved
  | resumeStatement y => cases hcaller; exact quiet_resumeStatement.logMoved
  | cancelWait y => cases hcaller; exact quiet_cancelWait.logMoved
  | completeStatement y => cases hcaller; exact quiet_completeStatement.logMoved
  | rollbackStatement y => cases hcaller; exact logMoved_rollbackStatement
  | prepare y => cases hcaller; exact quiet_prepare.logMoved
  | commit y => cases hcaller; exact logMoved_commit
  | rollback y => cases hcaller; exact logMoved_rollback
  | rollbackToIndex y i => cases hcaller; exact logMoved_rollbackToIndex
  | rollbackToSavepoint y name =>
    cases hcaller
    show LogMoved s c (c.rollbackToSavepoint s name).2
    unfold rollbackToSavepoint
    split
    next => exact logMoved_of_same rfl
    next => exact logMoved_rollbackToIndex
  | recordInsert y store row => cases hcaller; exact logMoved_recordInsert
  | recordDelete y store row => cases hcaller; exact logMoved_recordDelete

/-- Whatever is called, the log of every session changes by moves of the log only. -/
theorem logMoved_perform (c : Coordinator) (s : SessionId) (k : CoordinatorCall) :
    LogMoved s c (c.perform k) := by
  cases concerns_perform s c k with
  | own hcaller => exact logMoved_own hcaller
  | registers htx => exact logMoved_of_cleared (by rw [htx]; rfl)
  | @changes change htx => exact logMoved_of_same (by rw [htx, change.apply_log])
  | spares htx => exact logMoved_of_same (log_of_work (SessionTx.work_of_unlatched htx))

theorem logMoved_run (calls : List CoordinatorCall) : LogMoved s c (c.run calls) := by
  induction calls generalizing c with
  | nil => exact logMoved_of_same rfl
  | cons k rest ih => exact (logMoved_perform c s k).trans ih

/-- In every run the index of a session lists the places of all rows in its log. -/
theorem indexes_run {clock : Clock} {storage : Storage} {journal : Journal}
    (calls : List CoordinatorCall) (s : SessionId) :
    let tx := ((started clock storage journal).run calls).tx s
    Indexes tx.rowIndex tx.actions := by
  obtain ⟨moves, hmoves⟩ : LogMoved s (started clock storage journal) _ := logMoved_run calls
  obtain ⟨hactions, hindex⟩ := Prod.mk.inj hmoves
  dsimp only
  rw [hactions, hindex]
  exact SessionTx.indexes_reworkAll indexes_empty moves

/-- What a delete is noted as is found out from the index, and is what a scan of the log tells. -/
theorem actions_recordDelete_scanned (h : Indexes (c.tx s).rowIndex (c.tx s).actions) :
    ((c.recordDelete s store row).2.tx s).actions = (c.tx s).actions ++
      if (c.recordDelete s store row).1.isOk then
        [.ofRow (if ∃ a ∈ (c.tx s).actions, a.row = row.id ∧ a.type = .insert then
          .insertThenDelete else .delete) s (c.tx s).actionAt store row] else [] := by
  have hinserted := @SessionTx.insertedHere_iff _ row.id h
  rw [actions_recordDelete, RowAction.delete]
  simp only [hinserted]

/-- However the log of a session has grown, been cut off and been cleared, in a run of calls and by
further moves of the log, its index of rows tells what a scan of the log tells. A delete that is not
refused is noted as one of a row that the transaction has inserted itself exactly if an insert of the
row is still in the log. -/
theorem row_index_mirrors_log (level : IsolationLevel) (clock : Clock) (storage : Storage)
    (journal : Journal) (calls : List CoordinatorCall) (s : SessionId) (moves : List LogMove) :
    ((SessionTx.fresh s level).reworkAll moves).MirrorsLog ∧
      let c := ((started clock storage journal).run calls).updateTx s (·.reworkAll moves)
      (c.tx s).MirrorsLog ∧
        ∀ store row, ((c.recordDelete s store row).2.tx s).actions = (c.tx s).actions ++
          if (c.recordDelete s store row).1.isOk then
            [.ofRow (if ∃ a ∈ (c.tx s).actions, a.row = row.id ∧ a.type = .insert then
              .insertThenDelete else .delete) s (c.tx s).actionAt store row] else [] := by
  have hfresh : Indexes ((SessionTx.fresh s level).reworkAll moves).rowIndex
      ((SessionTx.fresh s level).reworkAll moves).actions :=
    SessionTx.indexes_reworkAll indexes_empty moves
  refine ⟨SessionTx.mirrorsLog hfresh, ?_⟩
  intro c
  have hindexes : Indexes (c.tx s).rowIndex (c.tx s).actions := by
    rw [tx_updateTx_self]
    exact SessionTx.indexes_reworkAll (indexes_run calls s) moves
  exact ⟨SessionTx.mirrorsLog hindexes, fun _ _ => actions_recordDelete_scanned hindexes⟩

/-- Two inserts of which the second one is cut off, and a delete of the first row. -/
example :
    let tx := (SessionTx.fresh 1 .readCommitted).reworkAll [.push (.insert 1 1 1 ⟨1, 1, 1, []⟩),
      .push (.insert 1 1 1 ⟨2, 2, 1, []⟩), .truncate 1, .push (.delete 1 2 1 ⟨1, 1, 1, []⟩ true)]
    tx.placesOf 1 = [0, 1] ∧ tx.touchedRows = [1] ∧ tx.insertedHere 1 = true ∧
      tx.hasRowActions 2 = false := by decide

end Coordinator

end LockingDb
