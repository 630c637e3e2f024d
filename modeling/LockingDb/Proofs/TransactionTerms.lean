import LockingDb.Proofs.Books

namespace LockingDb

/-- The level and the access mode of a session, those that hold for its open or its next transaction
and those that it goes back to. -/
structure Choices where
  isolation : IsolationLevel
  readOnly : Bool
  isolationDefault : IsolationLevel
  readOnlyDefault : Bool

/-- The defaults hold again. -/
def Choices.restored (c : Choices) : Choices :=
  { c with isolation := c.isolationDefault, readOnly := c.readOnlyDefault }

/-- What the work on statements leaves as it is: whether a transaction is open, whether it was told
to give up, and what its session has chosen. -/
structure TxTerms where
  isOpen : Bool
  abort : Bool
  choices : Choices

namespace SessionTx

variable {tx tx' : SessionTx}

def choices (tx : SessionTx) : Choices where
  isolation := tx.isolation
  readOnly := tx.readOnly
  isolationDefault := tx.isolationDefault
  readOnlyDefault := tx.readOnlyDefault

def terms (tx : SessionTx) : TxTerms where
  isOpen := tx.isOpen
  abort := tx.signals.abort
  choices := tx.choices

theorem terms_of_unlatched (h : tx'.unlatched = tx.unlatched) : tx'.terms = tx.terms := by
  have hsame : tx'.unlatched.terms = tx.unlatched.terms := congrArg terms h
  exact hsame

theorem choices_of_terms (h : tx'.terms = tx.terms) : tx'.choices = tx.choices :=
  congrArg TxTerms.choices h

theorem choices_of_unlatched (h : tx'.unlatched = tx.unlatched) : tx'.choices = tx.choices :=
  choices_of_terms (terms_of_unlatched h)

end SessionTx

namespace Coordinator

variable {c c' : Coordinator} {s : SessionId} {r : LockRequest} {t : TableId} {now : Timestamp}
  {answer : Except Failure LockAnswer}

theorem terms_setTx {tx : SessionTx} (h : tx.terms = (c.tx s).terms) :
    ((c.setTx s tx).tx s).terms = (c.tx s).terms := by
  rw [tx_setTx_self]
  exact h

theorem terms_endStatement : ((c.endStatement s).tx s).terms = (c.tx s).terms := by
  have hclear : ((c.setTx s { c.tx s with request := none }).tx s).terms = (c.tx s).terms :=
    terms_setTx rfl
  unfold endStatement
  dsimp only
  split
  next => exact hclear
  next =>
    split
    next => exact hclear
    next r _ =>
      split
      next => exact hclear
      next =>
        have hdropped : (((c.setTx s { c.tx s with request := none }).dropReads s
            r.reads.toList).tx s).terms = (c.tx s).terms :=
          (SessionTx.terms_of_unlatched unlatched_dropReads).trans hclear
        refine Eq.trans ?_ hdropped
        exact terms_setTx rfl

theorem terms_completeStatement : ((c.completeStatement s).tx s).terms = (c.tx s).terms := by
  have hstart : ((c.updateTx s fun tx => { tx with statementStart := tx.actions.length }).tx s).terms =
      (c.tx s).terms := terms_setTx rfl
  exact terms_endStatement.trans hstart

theorem terms_undoTo (start : Nat) (now : Timestamp) :
    ((c.undoTo s start now).2.tx s).terms = (c.tx s).terms := by
  rw [tx_undoTo_self]
  unfold SessionTx.truncateActions
  split <;> rfl

theorem terms_rollbackStatement : ((c.rollbackStatement s).tx s).terms = (c.tx s).terms := by
  have hundone : (((c.undoTo s (c.tx s).statementStart (c.tx s).actionAt).2.releaseRows
      (c.undoTo s (c.tx s).statementStart (c.tx s).actionAt).1).tx s).terms = (c.tx s).terms :=
    terms_undoTo (c.tx s).statementStart (c.tx s).actionAt
  exact terms_endStatement.trans hundone

theorem terms_cancelWait : ((c.cancelWait s).tx s).terms = (c.tx s).terms := by
  have hwithdrawn : ((c.withdraw s).tx s).terms = (c.tx s).terms :=
    SessionTx.terms_of_unlatched unlatched_withdraw
  refine Eq.trans ?_ hwithdrawn
  exact terms_setTx rfl

theorem terms_recordInsert {row : Row} :
    ((c.recordInsert s t row).2.tx s).terms = (c.tx s).terms := by
  unfold recordInsert
  split
  next => rfl
  next => exact terms_setTx rfl

theorem terms_recordDelete {row : Row} :
    ((c.recordDelete s t row).2.tx s).terms = (c.tx s).terms := by
  unfold recordDelete
  split
  next => rfl
  next =>
    split
    next => rfl
    next => exact terms_setTx rfl

theorem terms_insertRow {values : List Value} :
    ((c.insertRow s t t values).2.tx s).terms = (c.tx s).terms := by
  unfold insertRow
  generalize c.storage.newRow t values = allotted
  obtain ⟨outcome, storage⟩ := allotted
  cases outcome with
  | error f => rfl
  | ok row =>
    have hrecord : (({ c with storage }.recordInsert s t row).2.tx s).terms = (c.tx s).terms :=
      terms_recordInsert
    dsimp only
    generalize { c with storage }.recordInsert s t row = recorded at hrecord
    obtain ⟨answer, c₁⟩ := recorded
    cases answer <;> exact hrecord

theorem terms_insertInto {values : List Value} :
    ((c.insertInto s r t values).2.tx s).terms = (c.tx s).terms := by
  rcases insertInto_eq (c := c) (s := s) (r := r) (t := t) with heq | heq
  · rw [heq]
  · rw [heq]
    exact terms_insertRow

theorem terms_deleteAt {position : RowPosition} :
    ((c.deleteAt s r t position).2.tx s).terms = (c.tx s).terms := by
  rcases deleteAt_eq (c := c) (s := s) (r := r) (t := t) with heq | ⟨row, heq⟩
  · rw [heq]
  · rw [heq]
    exact terms_recordDelete

theorem terms_rollbackToIndex {i : Nat} :
    ((c.rollbackToIndex s i).2.tx s).terms = (c.tx s).terms := by
  unfold rollbackToIndex
  split
  next => rfl
  next savepoint _ =>
    have hundone : ((c.undoTo s savepoint.logLength savepoint.timestamp).2.tx s).terms =
        (c.tx s).terms := terms_undoTo _ _
    refine Eq.trans ?_ hundone
    exact terms_setTx rfl

theorem terms_rollbackToSavepoint {name : String} :
    ((c.rollbackToSavepoint s name).2.tx s).terms = (c.tx s).terms := by
  unfold rollbackToSavepoint
  split
  next => rfl
  next => exact terms_rollbackToIndex

theorem choices_setTx {tx : SessionTx} (h : tx.choices = (c.tx s).choices) :
    ((c.setTx s tx).tx s).choices = (c.tx s).choices := by
  rw [tx_setTx_self]
  exact h

theorem choices_openTx : ((c.openTx s now).tx s).choices = (c.tx s).choices := choices_setTx rfl

theorem choices_beginTransaction : ((c.beginTransaction s).tx s).choices = (c.tx s).choices := by
  unfold beginTransaction
  split
  next => rfl
  next => exact choices_openTx

theorem Begins.choices (hb : Begins c s r answer c') : (c'.tx s).choices = (c.tx s).choices := by
  obtain ⟨signals, granted, htx⟩ := hb.tx_eq
  rw [htx]
  rfl

theorem choices_beginStatement : ((c.beginStatement s r).2.tx s).choices = (c.tx s).choices :=
  (c.beginStatement_begins s r).choices

theorem choices_resumeStatement : ((c.resumeStatement s).2.tx s).choices = (c.tx s).choices := by
  unfold resumeStatement
  split
  next => rfl
  next =>
    dsimp only
    split
    next => exact choices_setTx rfl
    next => exact choices_openTx

theorem choices_prepare : ((c.prepare s).2.tx s).choices = (c.tx s).choices := by
  unfold prepare
  split
  next => rfl
  next => exact choices_setTx rfl

/-- The transaction of the session is over, and its defaults hold again. -/
structure Restores (s : SessionId) (c c' : Coordinator) : Prop where
  isOpen : (c'.tx s).isOpen = false
  choices : (c'.tx s).choices = (c.tx s).choices.restored

theorem restores_closeTx (h : (c'.tx s).choices = (c.tx s).choices) :
    Restores s c (c'.closeTx s now) := by
  constructor
  · rw [closeTx, tx_updateTx_self]
    rfl
  · rw [← h, closeTx, tx_updateTx_self]
    rfl

theorem choices_endTx {rows : List RowId} : ((c.endTx s rows).tx s).choices = (c.tx s).choices := by
  have hreleased (c₁ : Coordinator) : ((c₁.releaseLocks s).tx s).choices = (c₁.tx s).choices :=
    SessionTx.choices_of_unlatched unlatched_releaseLocks
  rw [endTx, hreleased]
  split <;> rfl

theorem restores_rollback : Restores s c (c.rollback s) := by
  obtain ⟨rows, now, c₁, c₂, hbegun, hundo, heq⟩ := rollback_undone c s
  have hbegun : (c₁.tx s).choices = (c.tx s).choices := by
    rw [hbegun]
    exact choices_setTx rfl
  have hundone : (c₂.tx s).choices = (c₁.tx s).choices := by
    have hterms : ((c₁.undoTo s 0 now).2.tx s).terms = (c₁.tx s).terms := terms_undoTo 0 now
    rw [hundo] at hterms
    exact SessionTx.choices_of_terms hterms
  have hended : ((c₂.endTx s rows).tx s).choices = (c₂.tx s).choices := choices_endTx
  have hreleased : (((c₂.endTx s rows).signal s .release).tx s).choices =
      ((c₂.endTx s rows).tx s).choices := choices_setTx rfl
  rw [heq]
  apply restores_closeTx
  rw [hreleased, hended, hundone, hbegun]

theorem restores_commit (h : c.abortRequested s = false) : Restores s c (c.commit s).2 := by
  have hcommits := c.commit_commits s
  generalize c.commitEvent? s = e, (c.commit s).2 = c' at hcommits
  cases hcommits with
  | refused habort =>
    rw [h] at habort
    cases habort
  | @failed f journal habort hlog =>
    have hback : Restores s { c.tick.2 with journal } ({ c.tick.2 with journal }.rollback s) :=
      restores_rollback
    exact ⟨hback.isOpen, hback.choices⟩
  | done habort hlog =>
    apply restores_closeTx
    exact choices_endTx

end Coordinator

end LockingDb
