import LockingDb.Proofs.LedgerSessionCalls
import LockingDb.Proofs.SessionCalls
import LockingDb.Proofs.TransactionTerms

namespace LockingDb

open Coordinator Session

namespace Coordinator

variable {c c' : Coordinator} {s : SessionId} {r : LockRequest} {t : TableId} {now : Timestamp}
  {answer : Except Failure LockAnswer}

/-- The session has asked for its statement to be run again, and nothing has taken the request. -/
def redoAsked (c : Coordinator) (s : SessionId) : Bool := (c.tx s).signals.redo

/-- A commit of the session finds that the log fails, and takes everything back. -/
def commitFails (c : Coordinator) (s : SessionId) : Bool :=
  !c.abortRequested s &&
    match (persist s c.tick.1 (c.tx s).actions c.storage c.journal).1 with
    | .error _ => true
    | .ok () => false

/-- The session has a transaction or locks, which it does not leave behind. -/
def hasWork (c : Coordinator) (s : SessionId) : Bool :=
  (c.tx s).isOpen || !(c.locks.locksOf s).isEmpty

theorem redo_of_tx (h : c'.tx s = c.tx s) : c'.redoAsked s = c.redoAsked s :=
  congrArg (fun tx : SessionTx => tx.signals.redo) h

theorem redo_of_unlatched (h : (c'.tx s).unlatched = (c.tx s).unlatched) :
    c'.redoAsked s = c.redoAsked s := by
  have hsame : (c'.tx s).unlatched.signals.redo = (c.tx s).unlatched.signals.redo := by rw [h]
  exact hsame

theorem redo_setTx {tx : SessionTx} (h : tx.signals.redo = c.redoAsked s) :
    (c.setTx s tx).redoAsked s = c.redoAsked s := by
  rw [redoAsked, tx_setTx_self]
  exact h

theorem redo_withdraw : (c.withdraw s).redoAsked s = c.redoAsked s :=
  redo_of_unlatched unlatched_withdraw

theorem redo_openTx : (c.openTx s now).redoAsked s = c.redoAsked s := redo_setTx rfl

theorem redo_beginTransaction : (c.beginTransaction s).redoAsked s = c.redoAsked s := by
  unfold beginTransaction
  split
  next => rfl
  next => exact redo_openTx

theorem Begins.redo (h : Begins c s r answer c') : c'.redoAsked s = c.redoAsked s := by
  have hnoted : (c.noted s r).redoAsked s = c.redoAsked s := redo_setTx rfl
  cases h with
  | aborted habort => exact hnoted
  | again habort hgranted => exact hnoted
  | granted habort hv =>
    refine Eq.trans ?_ hnoted
    exact redo_setTx rfl
  | waits habort hv =>
    refine Eq.trans ?_ hnoted
    exact redo_setTx rfl
  | refused habort hv =>
    have hpromoted : ({ c.noted s r with locks := (c.locks.acquire s r).2 }.promote).redoAsked s =
        c.redoAsked s := (redo_of_unlatched unlatched_promote).trans hnoted
    refine Eq.trans ?_ hpromoted
    exact redo_setTx rfl

theorem redo_beginStatement : (c.beginStatement s r).2.redoAsked s = c.redoAsked s :=
  (c.beginStatement_begins s r).redo

theorem redo_resumeStatement : (c.resumeStatement s).2.redoAsked s = c.redoAsked s := by
  unfold resumeStatement
  split
  next => rfl
  next =>
    dsimp only
    split
    next => exact redo_setTx rfl
    next => exact redo_openTx

theorem redo_cancelWait : (c.cancelWait s).redoAsked s = c.redoAsked s := by
  have hwithdrawn : (c.withdraw s).redoAsked s = c.redoAsked s := redo_withdraw
  refine Eq.trans ?_ hwithdrawn
  exact redo_setTx rfl

theorem redo_endStatement : (c.endStatement s).redoAsked s = c.redoAsked s := by
  have hclear : (c.setTx s { c.tx s with request := none }).redoAsked s = c.redoAsked s :=
    redo_setTx rfl
  unfold endStatement
  dsimp only
  split
  next => exact hclear
  next =>
    split
    next => exact hclear
    next r _ =>
      split
      next => exact hclear
      next =>
        have hdropped : ((c.setTx s { c.tx s with request := none }).dropReads s
            r.reads.toList).redoAsked s = c.redoAsked s :=
          (redo_of_unlatched unlatched_dropReads).trans hclear
        refine Eq.trans ?_ hdropped
        exact redo_setTx rfl

theorem redo_completeStatement : (c.completeStatement s).redoAsked s = c.redoAsked s := by
  refine redo_endStatement.trans ?_
  exact redo_setTx rfl

theorem redo_undoTo (start : Nat) (now : Timestamp) :
    (c.undoTo s start now).2.redoAsked s = c.redoAsked s := by
  rw [redoAsked, tx_undoTo_self]
  unfold SessionTx.truncateActions
  split <;> rfl

theorem redo_rollbackStatement : (c.rollbackStatement s).redoAsked s = c.redoAsked s := by
  have hundone : ((c.undoTo s (c.tx s).statementStart (c.tx s).actionAt).2.releaseRows
      (c.undoTo s (c.tx s).statementStart (c.tx s).actionAt).1).redoAsked s = c.redoAsked s :=
    redo_undoTo (c.tx s).statementStart (c.tx s).actionAt
  exact redo_endStatement.trans hundone

theorem redo_rollbackToIndex {i : Nat} :
    (c.rollbackToIndex s i).2.redoAsked s = c.redoAsked s := by
  unfold rollbackToIndex
  split
  next => rfl
  next savepoint _ =>
    have hundone : (c.undoTo s savepoint.logLength savepoint.timestamp).2.redoAsked s =
        c.redoAsked s := redo_undoTo _ _
    refine Eq.trans ?_ hundone
    exact redo_setTx rfl

theorem redo_rollbackToSavepoint {name : String} :
    (c.rollbackToSavepoint s name).2.redoAsked s = c.redoAsked s := by
  unfold rollbackToSavepoint
  split
  next => rfl
  next => exact redo_rollbackToIndex

theorem redo_recordInsert {row : Row} : (c.recordInsert s t row).2.redoAsked s = c.redoAsked s := by
  unfold recordInsert
  split
  next => rfl
  next => exact redo_setTx rfl

theorem redo_recordDelete {row : Row} : (c.recordDelete s t row).2.redoAsked s = c.redoAsked s := by
  unfold recordDelete
  split
  next => rfl
  next =>
    split
    next => rfl
    next => exact redo_setTx rfl

theorem redo_insertRow {values : List Value} :
    (c.insertRow s t t values).2.redoAsked s = c.redoAsked s := by
  unfold insertRow
  generalize c.storage.newRow t values = allotted
  obtain ⟨outcome, storage⟩ := allotted
  cases outcome with
  | error f => rfl
  | ok row =>
    have hrecord : ({ c with storage }.recordInsert s t row).2.redoAsked s = c.redoAsked s :=
      redo_recordInsert
    dsimp only
    generalize { c with storage }.recordInsert s t row = recorded at hrecord
    obtain ⟨answer, c₁⟩ := recorded
    cases answer <;> exact hrecord

theorem redo_insertInto {values : List Value} :
    (c.insertInto s r t values).2.redoAsked s = c.redoAsked s := by
  rcases insertInto_eq (c := c) (s := s) (r := r) (t := t) with heq | heq
  · rw [heq]
  · rw [heq]
    exact redo_insertRow

theorem redo_deleteAt {position : RowPosition} :
    (c.deleteAt s r t position).2.redoAsked s = c.redoAsked s := by
  rcases deleteAt_eq (c := c) (s := s) (r := r) (t := t) with heq | ⟨row, heq⟩
  · rw [heq]
  · rw [heq]
    exact redo_recordDelete

theorem redo_prepare : (c.prepare s).2.redoAsked s = c.redoAsked s := by
  unfold prepare
  split
  next => rfl
  next => exact redo_setTx rfl

theorem redo_endTx {rows : List RowId} : (c.endTx s rows).redoAsked s = c.redoAsked s := by
  have hreleased (c₁ : Coordinator) : (c₁.releaseLocks s).redoAsked s = c₁.redoAsked s :=
    redo_of_unlatched unlatched_releaseLocks
  rw [endTx, hreleased]
  split <;> rfl

theorem redo_closeTx : (c.closeTx s now).redoAsked s = c.redoAsked s := redo_setTx rfl

/-- A rollback takes the request. -/
theorem redo_rollback : (c.rollback s).redoAsked s = false := by
  obtain ⟨rows, now, c₁, c₂, hbegun, hundo, heq⟩ := rollback_undone c s
  have htaken : c₁.redoAsked s = false := by
    rw [hbegun]
    show ((c.signal s fun g => g.clearAbort.takeRedo.2).tx s).signals.redo = false
    rw [tx_signal_self]
    rfl
  have hundone : c₂.redoAsked s = c₁.redoAsked s := by
    have hkept : (c₁.undoTo s 0 now).2.redoAsked s = c₁.redoAsked s := redo_undoTo 0 now
    rwa [hundo] at hkept
  have hreleased : ((c₂.endTx s rows).signal s .release).redoAsked s =
      (c₂.endTx s rows).redoAsked s := redo_setTx rfl
  rw [heq, redo_closeTx, hreleased, redo_endTx, hundone, htaken]

/-- A commit takes the request only if the log fails. -/
theorem redo_commit : (c.commit s).2.redoAsked s = (c.redoAsked s && !c.commitFails s) := by
  have hcommits := c.commit_commits s
  generalize c.commitEvent? s = e, (c.commit s).2 = c' at hcommits
  cases hcommits with
  | refused habort => simp [commitFails, habort]
  | failed habort hlog => simp [commitFails, habort, hlog, redo_rollback]
  | done habort hlog =>
    rw [redo_closeTx, redo_endTx]
    simp only [commitFails, habort, hlog]
    exact (Bool.and_true _).symm

theorem redo_unregister : (c.unregister s).redoAsked s = (c.redoAsked s && !c.hasWork s) := by
  have hleft (c₁ : Coordinator) : ({ c₁.withdraw s with
      registered := (c₁.withdraw s).registered.erase s } : Coordinator).redoAsked s =
        c₁.redoAsked s := redo_withdraw
  unfold unregister
  rw [hleft]
  unfold hasWork
  split
  next hwork => simp [hwork, redo_rollback]
  next hidle => simp [hidle]

end Coordinator

namespace Session

variable {c : Coordinator} {s : SessionId} {x : Session} {k : SessionCall}

/-- The body asks for its statement to be run again. -/
def asksRedo (x : Session) : Bool :=
  match x.activity with
  | .running (.requestRedo _) => true
  | _ => false

/-- The step takes the request: it ends a run, or it is a rollback. -/
def forgetsRedo (x : Session) (s : SessionId) (c : Coordinator) : Bool :=
  match x.activity with
  | .finishing _ | .rollingBack _ => true
  | .committing _ _ => c.commitFails s
  | _ => false

/-- The call rolls back what the session has at once. -/
def callForgetsRedo (x : Session) (s : SessionId) (c : Coordinator) : SessionCall → Bool
  | .close => !x.closed && c.hasWork s
  | _ => false

theorem redo_runBody (body : StatementBody) : (x.runBody s c body).2.redoAsked s =
    ((match body with | .requestRedo _ => true | _ => false) || c.redoAsked s) := by
  cases body with
  | requestRedo next => exact congrArg (fun tx : SessionTx => tx.signals.redo) tx_signal_self
  | raiseAbort next => exact redo_setTx rfl
  | insert t values next => exact redo_insertInto
  | delete t position next => exact redo_deleteAt
  | deleteWhere t test next =>
    dsimp only [runBody]
    split <;> rfl
  | _ => rfl

/-- Only the body of a statement asks for another run of it. -/
theorem redo_step : (x.step s c).2.redoAsked s =
    (x.asksRedo || (c.redoAsked s && !x.forgetsRedo s c)) := by
  unfold step asksRedo forgetsRedo
  cases hactivity : x.activity with
  | idle => simp
  | entering =>
    dsimp only
    split <;> simp
  | acquiring =>
    have hbegun : (c.beginStatement s x.statement.request).2.redoAsked s = c.redoAsked s :=
      redo_beginStatement
    simp only [Bool.false_or, Bool.not_false, Bool.and_true]
    generalize c.beginStatement s x.statement.request = begun at hbegun
    obtain ⟨f | (_ | _), c₁⟩ := begun
    case error => cases f <;> exact hbegun
    all_goals exact hbegun
  | waiting =>
    dsimp only
    split <;> simp
  | timedOut => simp [redo_cancelWait]
  | resuming =>
    have hresumed : (c.resumeStatement s).2.redoAsked s = c.redoAsked s := redo_resumeStatement
    simp only [Bool.false_or, Bool.not_false, Bool.and_true]
    split
    next => rfl
    next =>
      generalize c.resumeStatement s = resumed at hresumed
      obtain ⟨answer, c₁⟩ := resumed
      cases answer <;> exact hresumed
  | running body =>
    simp only [redo_runBody, Bool.not_false, Bool.and_true]
    cases body <;> rfl
  | deleting t rows count next =>
    simp only [Bool.false_or, Bool.not_false, Bool.and_true]
    cases rows with
    | nil => rfl
    | cons row rows =>
      have hdeleted : (c.recordDelete s t row).2.redoAsked s = c.redoAsked s := redo_recordDelete
      dsimp only
      generalize c.recordDelete s t row = deleted at hdeleted
      obtain ⟨answer, c₁⟩ := deleted
      cases answer <;> exact hdeleted
  | failing error => simp [redo_rollbackStatement]
  | failed error =>
    dsimp only
    split
    next => simp
    next => split <;> simp
  | finishing result =>
    have htaken : (c.signal s fun _ => (c.tx s).signals.takeRedo.2).redoAsked s = false :=
      congrArg (fun tx : SessionTx => tx.signals.redo) tx_signal_self
    simp only [Bool.false_or, Bool.not_true, Bool.and_false]
    split
    next => exact redo_rollbackStatement.trans htaken
    next => exact redo_completeStatement.trans htaken
  | finished result =>
    dsimp only
    split
    next => simp
    next => split <;> simp
  | committing autocommit answer =>
    have hcommitted : (c.commit s).2.redoAsked s = (c.redoAsked s && !c.commitFails s) := redo_commit
    simp only [Bool.false_or]
    generalize c.commit s = committed at hcommitted
    obtain ⟨f | (_ | _), c₁⟩ := committed <;> exact hcommitted
  | rollingBack reply => simp [redo_rollback]

theorem redo_callOpen (hopen : x.closed = false) : (x.callOpen s c k).2.redoAsked s =
    (c.redoAsked s && !x.callForgetsRedo s c k) := by
  have hkept (h : (x.callOpen s c k).2.redoAsked s = c.redoAsked s)
      (hk : x.callForgetsRedo s c k = false) : (x.callOpen s c k).2.redoAsked s =
        (c.redoAsked s && !x.callForgetsRedo s c k) := by
    rw [h, hk, Bool.not_false, Bool.and_true]
  cases k with
  | begin => exact hkept redo_beginTransaction rfl
  | prepare =>
    have hprepared : (c.prepare s).2.redoAsked s = c.redoAsked s := redo_prepare
    refine hkept ?_ rfl
    dsimp only [callOpen]
    generalize c.prepare s = prepared at hprepared
    obtain ⟨_ | _, c₁⟩ := prepared <;> exact hprepared
  | rollback =>
    refine hkept ?_ rfl
    dsimp only [callOpen]
    split <;> rfl
  | savepoint name =>
    have hsaved : (c.updateTx s (·.setSavepoint name)).redoAsked s = c.redoAsked s := redo_setTx rfl
    exact hkept hsaved rfl
  | rollbackTo name =>
    have hundone : (c.rollbackToSavepoint s name).2.redoAsked s = c.redoAsked s :=
      redo_rollbackToSavepoint
    refine hkept ?_ rfl
    dsimp only [callOpen]
    generalize c.rollbackToSavepoint s name = undone at hundone
    obtain ⟨answer, c₁⟩ := undone
    cases answer <;> exact hundone
  | rollbackToFirst =>
    have hundone : (c.rollbackToIndex s 0).2.redoAsked s = c.redoAsked s := redo_rollbackToIndex
    refine hkept ?_ rfl
    dsimp only [callOpen]
    generalize c.rollbackToIndex s 0 = undone at hundone
    obtain ⟨answer, c₁⟩ := undone
    cases answer <;> exact hundone
  | release name =>
    refine hkept ?_ rfl
    dsimp only [callOpen]
    split
    next => rfl
    next => exact redo_setTx rfl
  | setAutocommit on =>
    refine hkept ?_ rfl
    dsimp only [callOpen]
    split <;> rfl
  | setIsolation level =>
    refine hkept ?_ rfl
    dsimp only [callOpen, SessionTx.setIsolation]
    split
    next => rfl
    next => exact redo_setTx rfl
  | setReadOnly on =>
    refine hkept ?_ rfl
    dsimp only [callOpen, SessionTx.setReadOnly]
    split
    next => rfl
    next => exact redo_setTx rfl
  | setIsolationDefault level => exact hkept (redo_setTx rfl) rfl
  | setReadOnlyDefault on => exact hkept (redo_setTx rfl) rfl
  | execute statement =>
    refine hkept ?_ rfl
    dsimp only [callOpen]
    split <;> rfl
  | close => simp [callOpen, close, hopen, callForgetsRedo, redo_unregister]
  | _ => exact hkept rfl rfl

theorem redo_call : (x.call s c k).2.redoAsked s =
    (c.redoAsked s && !x.callForgetsRedo s c k) := by
  by_cases hgone : x.closed = true
  · obtain ⟨timeout, reply, hcall⟩ := call_of_closed (s := s) (c := c) hgone k
    have hkept : x.callForgetsRedo s c k = false := by cases k <;> simp [callForgetsRedo, hgone]
    rw [hcall, hkept, Bool.not_false, Bool.and_true]
  · have hopen := Bool.eq_false_iff.mpr hgone
    rw [call_of_open hopen]
    exact redo_callOpen hopen

/-- The step starts a run of the body. -/
def startsRun (x : Session) (s : SessionId) (c : Coordinator) : Bool :=
  match x.activity with
  | .resuming => !c.abortRequested s
  | _ => false

/-- The step ends a run that the body came to the end of. -/
def endsRun (x : Session) : Bool :=
  match x.activity with
  | .finishing _ => true
  | _ => false

/-- The step ends a run, and the statement is begun again. -/
def reruns (x : Session) (s : SessionId) (c : Coordinator) : Bool :=
  x.endsRun &&
    match (x.step s c).1.activity with
    | .entering => true
    | _ => false

/-- The step answers the error that the body has failed with, and leaves the transaction open. -/
def answersFailure (x : Session) (s : SessionId) (c : Coordinator) : Bool :=
  match x.activity with
  | .failed _ => !c.abortRequested s && !x.autocommit
  | _ => false

/-- A run of the body was started and is not over, or its error has not been answered. -/
def inRun (x : Session) : Bool :=
  match x.activity with
  | .running _ | .deleting _ _ _ _ | .failing _ | .failed _ | .finishing _ => true
  | _ => false

/-- The run is going on, or all that it did is about to be rolled back. -/
def isUnsettled (x : Session) : Bool :=
  match x.activity with
  | .rollingBack _ => true
  | _ => x.inRun

/-- The statement is about to be run, for the first time or again. -/
def awaitsRun (x : Session) : Bool :=
  match x.activity with
  | .entering | .acquiring | .waiting | .timedOut | .resuming => true
  | _ => false

/-- The session is at work on a statement whose body it has started. -/
def hasRun (x : Session) : Bool := x.inRun || (x.awaitsRun && x.runs != 0)

theorem reruns_eq : x.reruns s c = (x.endsRun && c.redoAsked s) := by
  unfold reruns endsRun step
  cases hactivity : x.activity with
  | finishing result =>
    have hredo : (c.tx s).signals.takeRedo.1 = c.redoAsked s := rfl
    simp only [hredo]
    cases c.redoAsked s <;> rfl
  | _ => rfl

theorem inRun_runBody (body : StatementBody) : (x.runBody s c body).1.inRun = true := by
  cases body with
  | deleteWhere t test next =>
    dsimp only [runBody]
    split <;> rfl
  | _ => rfl

theorem inRun_of_endsRun (h : x.endsRun = true) : x.inRun = true := by
  unfold endsRun at h
  unfold inRun
  split at h
  next hactivity => rw [hactivity]
  next => cases h

theorem isUnsettled_of_inRun (h : x.inRun = true) : x.isUnsettled = true := by
  unfold isUnsettled
  split
  next => rfl
  next => exact h

theorem not_inRun_of_awaitsRun (h : x.awaitsRun = true) : x.inRun = false := by
  unfold awaitsRun at h
  unfold inRun
  cases hactivity : x.activity <;> simp_all

theorem unsettled_unfinished (h : x.isUnsettled = true) : x.isIdle = false ∧ x.isWaiting = false ∧
    x.awaitsRun = false ∧ x.startsRun s c = false := by
  unfold isUnsettled inRun at h
  unfold isIdle isWaiting awaitsRun startsRun
  cases hactivity : x.activity <;> simp_all

/-- Where a step of a session leads it on its way from run to run. -/
inductive Leads (x : Session) (s : SessionId) (c : Coordinator) (z : Session) : Prop where
  | starts (hstarts : x.startsRun s c = true) (hto : z.inRun = true)
  | goesOn (hfrom : x.inRun = true) (hkept : x.forgetsRedo s c = false) (hto : z.inRun = true)
  | again (hreruns : x.reruns s c = true) (hforgets : x.forgetsRedo s c = true)
      (hto : z.awaitsRun = true)
  | awaits (hfrom : x.awaitsRun = true) (hstarts : x.startsRun s c = false) (hto : z.inRun = false)
      (hruns : z.runs = x.runs)
  | leaves (hunsettled : x.isUnsettled = true → x.forgetsRedo s c = true ∨ z.isUnsettled = true ∨
        x.answersFailure s c = true) (hout : z.inRun = false) (hto : z.awaitsRun = false)

theorem step_leads : x.Leads s c (x.step s c).1 := by
  cases hactivity : x.activity with
  | idle =>
    simp only [step, hactivity]
    exact .leaves (by simp [isUnsettled, inRun, hactivity]) (by simp [inRun, hactivity])
      (by simp [awaitsRun, hactivity])
  | entering =>
    have hfrom : x.awaitsRun = true := by simp [awaitsRun, hactivity]
    have hstarts : x.startsRun s c = false := by simp [startsRun, hactivity]
    simp only [step, hactivity]
    split <;> exact .awaits hfrom hstarts rfl rfl
  | acquiring =>
    have hfrom : x.awaitsRun = true := by simp [awaitsRun, hactivity]
    have hstarts : x.startsRun s c = false := by simp [startsRun, hactivity]
    simp only [step, hactivity]
    split <;> exact .awaits hfrom hstarts rfl rfl
  | waiting =>
    have hfrom : x.awaitsRun = true := by simp [awaitsRun, hactivity]
    have hstarts : x.startsRun s c = false := by simp [startsRun, hactivity]
    simp only [step, hactivity]
    split
    next => exact .awaits hfrom hstarts rfl rfl
    next => exact .awaits hfrom hstarts rfl rfl
    next => exact .awaits hfrom hstarts rfl rfl
    next => exact .awaits hfrom hstarts (not_inRun_of_awaitsRun hfrom) rfl
  | timedOut =>
    simp only [step, hactivity]
    exact .awaits (by simp [awaitsRun, hactivity]) (by simp [startsRun, hactivity]) rfl rfl
  | resuming =>
    have hfrom : x.awaitsRun = true := by simp [awaitsRun, hactivity]
    simp only [step, hactivity]
    split
    next habort => exact .awaits hfrom (by simp [startsRun, hactivity, habort]) rfl rfl
    next habort =>
      -- A transaction that goes on may resume its statement.
      have hresumed : (c.resumeStatement s).1 = .ok () := by
        unfold resumeStatement
        rw [if_neg habort]
        dsimp only
        split <;> rfl
      generalize c.resumeStatement s = resumed at hresumed
      obtain ⟨answer, c₁⟩ := resumed
      subst hresumed
      exact .starts (by simp [startsRun, hactivity, habort]) rfl
  | running body =>
    simp only [step, hactivity]
    exact .goesOn (by simp [inRun, hactivity]) (by simp [forgetsRedo, hactivity])
      (inRun_runBody body)
  | deleting t rows count next =>
    have hfrom : x.inRun = true := by simp [inRun, hactivity]
    have hkept : x.forgetsRedo s c = false := by simp [forgetsRedo, hactivity]
    cases rows with
    | nil =>
      simp only [step, hactivity]
      exact .goesOn hfrom hkept rfl
    | cons row rows =>
      simp only [step, hactivity]
      split <;> exact .goesOn hfrom hkept rfl
  | failing error =>
    simp only [step, hactivity]
    exact .goesOn (by simp [inRun, hactivity]) (by simp [forgetsRedo, hactivity]) rfl
  | failed error =>
    simp only [step, hactivity]
    split
    next => exact .leaves (fun _ => .inr (.inl rfl)) rfl rfl
    next habort =>
      split
      next => exact .leaves (fun _ => .inr (.inl rfl)) rfl rfl
      next hauto =>
        exact .leaves (fun _ => .inr (.inr (by simp [answersFailure, hactivity, habort, hauto])))
          rfl rfl
  | finishing result =>
    have hforgets : x.forgetsRedo s c = true := by simp [forgetsRedo, hactivity]
    simp only [step, hactivity]
    split
    next hredo =>
      have hagain : x.reruns s c = true := by
        rw [reruns_eq]
        simp only [endsRun, hactivity]
        exact hredo
      exact .again hagain hforgets rfl
    next => exact .leaves (fun _ => .inl hforgets) rfl rfl
  | finished result =>
    have hsettled : x.isUnsettled ≠ true := by simp [isUnsettled, inRun, hactivity]
    simp only [step, hactivity]
    split
    next => exact .leaves (absurd · hsettled) rfl rfl
    next => split <;> exact .leaves (absurd · hsettled) rfl rfl
  | committing autocommit answer =>
    have hsettled : x.isUnsettled ≠ true := by simp [isUnsettled, inRun, hactivity]
    simp only [step, hactivity]
    split <;> exact .leaves (absurd · hsettled) rfl rfl
  | rollingBack reply =>
    simp only [step, hactivity]
    exact .leaves (fun _ => .inl (by simp [forgetsRedo, hactivity])) rfl rfl

/-- What a body has asked for stands until the run ends, all is rolled back, or its error is
answered. -/
theorem step_of_isUnsettled (h : x.isUnsettled = true) (hkept : x.forgetsRedo s c = false) :
    (x.step s c).1.isUnsettled = true ∨ x.answersFailure s c = true := by
  obtain ⟨-, -, hnone, hnew⟩ := unsettled_unfinished (s := s) (c := c) h
  cases x.step_leads (s := s) (c := c) with
  | starts hstarts hto => simp [hnew] at hstarts
  | goesOn hfrom hkept hto => exact .inl (isUnsettled_of_inRun hto)
  | again hreruns hforgets hto => simp [hkept] at hforgets
  | awaits hfrom hstarts hto hruns => simp [hnone] at hfrom
  | leaves hunsettled hout hto => exact (hunsettled h).resolve_left (by simp [hkept])

/-- A session is in a run only by starting it. -/
theorem inRun_of_step (h : (x.step s c).1.inRun = true) (hstarts : x.startsRun s c = false) :
    x.inRun = true ∧ x.forgetsRedo s c = false := by
  cases x.step_leads (s := s) (c := c) with
  | starts hnew hto => simp [hstarts] at hnew
  | goesOn hfrom hkept hto => exact ⟨hfrom, hkept⟩
  | again hreruns hforgets hto => simp [not_inRun_of_awaitsRun hto] at h
  | awaits hfrom hstarts hto hruns => simp [hto] at h
  | leaves hunsettled hout hto => simp [hout] at h

/-- A statement is run again after a run that ended so, or goes on to the run that it awaits. -/
theorem awaitsRun_of_step (h : (x.step s c).1.awaitsRun = true) : x.reruns s c = true ∨
    x.awaitsRun = true ∧ x.startsRun s c = false ∧ (x.step s c).1.runs = x.runs := by
  have hout := not_inRun_of_awaitsRun h
  cases x.step_leads (s := s) (c := c) with
  | starts hstarts hto => simp [hout] at hto
  | goesOn hfrom hkept hto => simp [hout] at hto
  | again hreruns hforgets hto => exact .inl hreruns
  | awaits hfrom hstarts hto hruns => exact .inr ⟨hfrom, hstarts, hruns⟩
  | leaves hunsettled hout hto => simp [h] at hto

/-- A call begins without a run. -/
theorem runs_call : (x.call s c k).1.runs = 0 ∧ (x.call s c k).1.inRun = false := by
  by_cases hgone : x.closed = true
  · obtain ⟨timeout, reply, hcall⟩ := call_of_closed (s := s) (c := c) hgone k
    rw [hcall]
    exact ⟨rfl, rfl⟩
  · have hopen := Bool.eq_false_iff.mpr hgone
    rw [call_of_open hopen]
    have hsettle {settled : Except Failure SessionTx} :
        ((Session.settle { x with reply := none, runs := 0 } s c settled).1.runs = 0 ∧
          (Session.settle { x with reply := none, runs := 0 } s c settled).1.inRun = false) := by
      cases settled <;> exact ⟨rfl, rfl⟩
    cases k with
    | setIsolation level => exact hsettle
    | setReadOnly on => exact hsettle
    | prepare =>
      dsimp only [callOpen]
      split <;> exact ⟨rfl, rfl⟩
    | rollbackTo name =>
      dsimp only [callOpen]
      split <;> exact ⟨rfl, rfl⟩
    | rollbackToFirst =>
      dsimp only [callOpen]
      split <;> exact ⟨rfl, rfl⟩
    | release name =>
      dsimp only [callOpen]
      split <;> exact ⟨rfl, rfl⟩
    | setAutocommit on =>
      dsimp only [callOpen]
      split <;> exact ⟨rfl, rfl⟩
    | setControl mode =>
      dsimp only [callOpen]
      cases setControl s c mode <;> exact ⟨rfl, rfl⟩
    | execute statement =>
      dsimp only [callOpen]
      split <;> exact ⟨rfl, rfl⟩
    | close =>
      simp only [callOpen, close, hopen]
      exact ⟨rfl, rfl⟩
    | _ => exact ⟨rfl, rfl⟩

theorem hasRun_of_isIdle (h : x.isIdle = true) : x.hasRun = false := by
  simp [hasRun, inRun, awaitsRun, activity_of_isIdle h]

theorem hasRun_call : (x.call s c k).1.hasRun = false := by
  obtain ⟨hruns, hin⟩ := runs_call (x := x) (s := s) (c := c) (k := k)
  simp [hasRun, hruns, hin]

end Session

end LockingDb
