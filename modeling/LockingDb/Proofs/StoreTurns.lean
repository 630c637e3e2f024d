import LockingDb.Proofs.LogTurns
import LockingDb.Proofs.LoggedPlaces
import LockingDb.Proofs.ReadOnlyWork
import LockingDb.Proofs.StaleSavepoints
import LockingDb.Proofs.TransactionTerms

namespace LockingDb

open Coordinator Session

namespace Coordinator

variable {c c' c₁ : Coordinator} {s : SessionId} {t : TableId} {row : Row} {i : Nat}
  {e : Option Event} {values : List Value} {a : Access}

/-- What a move of a session does to the tables and to its log: nothing; or a row is inserted or
deleted, which is noted unless the store refuses it; or the end of the log is taken back; or all of it
is made final. As long as its transaction goes on the session keeps the tables that it has locked. -/
inductive StoreTurn (s : SessionId) (c c' : Coordinator) : Option Event → Prop where
  | stays {e : Option Event} (hstorage : c'.storage = c.storage)
      (hactions : (c'.tx s).actions = (c.tx s).actions) (hup : Upholds s c c')
      (hgoes : ∀ event ∈ e, event.ends s = false) : StoreTurn s c c' e
  | inserts {t : TableId} {values : List Value} {row : Row} {storage : Storage}
      (hopen : (c.tx s).isOpen = true) (hmode : c.locks.mode? s t = some .exclusive)
      (hnew : c.storage.newRow t values = (.ok row, storage))
      (hstorage : c'.storage = (storage.call t (.index row)).2)
      (hactions : (c'.tx s).actions = (c.tx s).actions ++
        if (storage.call t (.index row)).1.isOk then [.insert s (c.tx s).actionAt t row] else [])
      (hup : Upholds s c c') : StoreTurn s c c' (some (.access ⟨s, t, .insert⟩))
  | deletes {t : TableId} {row : Row} {insertedHere : Bool}
      (hopen : (c.tx s).isOpen = true) (hmode : c.locks.mode? s t = some .exclusive)
      (hrow : c.storage.get? t row.position = some row)
      (hstorage : c'.storage = (c.storage.call t (.delete row)).2)
      (hactions : (c'.tx s).actions = (c.tx s).actions ++
        if (c.storage.call t (.delete row)).1.isOk then
          [.delete s (c.tx s).actionAt t row insertedHere] else [])
      (hup : Upholds s c c') : StoreTurn s c c' (some (.access ⟨s, t, .delete⟩))
  | undoes {e : Option Event} {n : Nat} {now : Timestamp}
      (hstorage : c'.storage = undoAll now ((c.tx s).actions.drop n).reverse c.storage)
      (hactions : (c'.tx s).actions = (c.tx s).actions.take n)
      (hup : (c.tx s).isOpen = true → (∀ event ∈ e, event.ends s = false) → Upholds s c c')
      (hends : ∀ event ∈ e, event.ends s = true → n = 0) : StoreTurn s c c' e
  | finalizes {e : Option Event} {now : Timestamp}
      (hstorage : c'.storage = (finalizeAll now (c.tx s).actions c.storage).2)
      (hactions : (c'.tx s).actions = [])
      (hends : (c.tx s).isOpen = true → ∃ event ∈ e, event.ends s = true) : StoreTurn s c c' e

theorem storeTurn_refl (hgoes : ∀ event ∈ e, event.ends s = false) : StoreTurn s c c e :=
  .stays rfl rfl (.refl s c) hgoes

theorem storeTurn_of_quiet (hq : Quiet s c c') : StoreTurn s c c' none :=
  .stays hq.storage (actions_of_work hq.work) hq.toUpholds nofun

theorem StoreTurn.before (h : StoreTurn s c c₁ e) (hq : Quiet s c₁ c') : StoreTurn s c c' e := by
  have hlog := actions_of_work hq.work
  have hup := hq.toUpholds
  cases h with
  | stays hstorage hactions hkept hgoes =>
    exact .stays (hq.storage.trans hstorage) (hlog.trans hactions) (hkept.trans hup) hgoes
  | inserts hopen hmode hnew hstorage hactions hkept =>
    exact .inserts hopen hmode hnew (hq.storage.trans hstorage) (hlog.trans hactions)
      (hkept.trans hup)
  | deletes hopen hmode hrow hstorage hactions hkept =>
    exact .deletes hopen hmode hrow (hq.storage.trans hstorage) (hlog.trans hactions)
      (hkept.trans hup)
  | undoes hstorage hactions hkept hends =>
    exact .undoes (hq.storage.trans hstorage) (hlog.trans hactions)
      (fun hopen hgoes => (hkept hopen hgoes).trans hup) hends
  | finalizes hstorage hactions hends =>
    exact .finalizes (hq.storage.trans hstorage) (hlog.trans hactions) hends

theorem Unmoved.upholds (h : Unmoved s c c') : Upholds s c c' :=
  ⟨fun hopen => h.isOpen.trans hopen, fun t ht => by rwa [h.locks]⟩

theorem goes_access : ∀ event ∈ some (Event.access a), event.ends s = false := by
  rintro event ⟨⟩
  rfl

theorem storage_recordInsert (c : Coordinator) (s : SessionId) (t : TableId) (row : Row) :
    (c.recordInsert s t row).1 = (c.storage.call t (.index row)).1 ∧
      (c.recordInsert s t row).2.storage = (c.storage.call t (.index row)).2 := by
  unfold Coordinator.recordInsert
  generalize c.storage.call t (.index row) = called
  obtain ⟨answer, storage⟩ := called
  cases answer <;> exact ⟨rfl, rfl⟩

theorem storage_recordDelete (hcheck : c.owners.check s row.id = .ok ()) :
    (c.recordDelete s t row).1 = (c.storage.call t (.delete row)).1 ∧
      (c.recordDelete s t row).2.storage = (c.storage.call t (.delete row)).2 := by
  unfold Coordinator.recordDelete
  rw [hcheck]
  dsimp only
  generalize c.storage.call t (.delete row) = called
  obtain ⟨answer, storage⟩ := called
  cases answer <;> exact ⟨rfl, rfl⟩

theorem recordDelete_of_owned {f : Failure} (hcheck : c.owners.check s row.id = .error f) :
    (c.recordDelete s t row).2 = c := by
  unfold Coordinator.recordDelete
  rw [hcheck]

theorem storeTurn_recordDelete (hopen : (c.tx s).isOpen = true)
    (hmode : c.locks.mode? s t = some .exclusive) (hrow : c.storage.get? t row.position = some row) :
    StoreTurn s c (c.recordDelete s t row).2 (some (.access ⟨s, t, .delete⟩)) := by
  have hhandles : Handles s c (c.recordDelete s t row).2 := handles_recordDelete hmode hopen
  cases hcheck : c.owners.check s row.id with
  | error f =>
    rw [recordDelete_of_owned hcheck]
    exact storeTurn_refl goes_access
  | ok done =>
    obtain ⟨hanswer, hstorage⟩ := storage_recordDelete (t := t) hcheck
    have hactions : ((c.recordDelete s t row).2.tx s).actions = (c.tx s).actions ++
        if (c.recordDelete s t row).1.isOk then
          [.delete s (c.tx s).actionAt t row ((c.tx s).insertedHere row.id)] else [] :=
      actions_recordDelete
    rw [hanswer] at hactions
    exact .deletes hopen hmode hrow hstorage hactions hhandles.upholds

theorem storeTurn_insertRow (hopen : (c.tx s).isOpen = true)
    (hmode : c.locks.mode? s t = some .exclusive)
    (hup : Upholds s c (c.insertRow s t t values).2) :
    StoreTurn s c (c.insertRow s t t values).2 (some (.access ⟨s, t, .insert⟩)) := by
  unfold insertRow at hup ⊢
  split
  next hnew =>
    unfold Storage.newRow at hnew
    split at hnew
    next =>
      cases hnew
      exact storeTurn_refl goes_access
    next => cases hnew
  next row storage hnew =>
    rw [hnew] at hup
    dsimp only at hup
    obtain ⟨hanswer, hstored⟩ := { c with storage }.storage_recordInsert s t row
    have hactions : (({ c with storage }.recordInsert s t row).2.tx s).actions = (c.tx s).actions ++
        if ({ c with storage }.recordInsert s t row).1.isOk then
          [.insert s (c.tx s).actionAt t row] else [] := actions_recordInsert
    rw [hanswer] at hactions
    generalize { c with storage }.recordInsert s t row = recorded at hstored hactions hup
    obtain ⟨answer, c₁⟩ := recorded
    cases answer <;> exact .inserts hopen hmode hnew hstored hactions hup

theorem storage_rollbackStatement : (c.rollbackStatement s).storage =
    undoAll (c.tx s).actionAt ((c.tx s).actions.drop (c.tx s).statementStart).reverse c.storage := by
  rw [quiet_rest_of_rollbackStatement.storage, ← SessionTx.truncateActions_removed]
  rfl

/-- The running statement is taken back. -/
theorem storeTurn_rollbackStatement (hq : Quiet s c c₁) :
    StoreTurn s c (c₁.rollbackStatement s) none := by
  have hlog := actions_of_work hq.work
  have hstorage := storage_rollbackStatement (c := c₁) (s := s)
  have hactions := actions_rollbackStatement (c := c₁) (s := s)
  rw [hlog, hq.storage] at hstorage
  rw [hlog] at hactions
  exact .undoes hstorage hactions (fun _ _ => hq.toUpholds.trans upholds_rollbackStatement)
    (fun _ hevent => absurd hevent (Option.not_mem_none _))

/-- All is taken back, and an open transaction ends by that. -/
theorem storeTurn_rollback (htx : c₁.tx s = c.tx s) (hsame : c₁.storage = c.storage) :
    StoreTurn s c (c₁.rollback s) (c.rollbackEvent? s) := by
  obtain ⟨now, hstorage⟩ := storage_rollback c₁ s
  rw [htx, hsame, ← List.drop_zero (l := (c.tx s).actions)] at hstorage
  refine .undoes hstorage actions_rollback (fun hopen hgoes => ?_) fun _ _ _ => rfl
  have hends := hgoes (.rolledBack s) (if_pos hopen)
  simp [Event.ends] at hends

theorem storeTurn_commit : StoreTurn s c (c.commit s).2 (c.commitEvent? s) := by
  have hcommits := c.commit_commits s
  generalize c.commitEvent? s = e, (c.commit s).2 = c' at hcommits
  cases hcommits with
  | refused habort => exact storeTurn_refl nofun
  | failed habort hlog => exact storeTurn_rollback rfl rfl
  | @done journal habort hlog =>
    refine .finalizes storage_closed ?_ fun hopen => ?_
    · rw [closeTx, tx_updateTx_self]
      rfl
    · rw [if_pos hopen]
      exact ⟨_, rfl, decide_eq_true rfl⟩

theorem storeTurn_unregister : StoreTurn s c (c.unregister s) (c.rollbackEvent? s) := by
  have hleft (c₁ : Coordinator) : Quiet s c₁
      { c₁.withdraw s with registered := (c₁.withdraw s).registered.erase s } :=
    quiet_withdraw.trans (quiet_of_eq rfl rfl rfl)
  unfold unregister
  dsimp only
  split
  next => exact (storeTurn_rollback rfl rfl).before (hleft _)
  next hidle =>
    have hclosed : (c.tx s).isOpen = false := by
      by_contra hopen
      rw [Bool.not_eq_false] at hopen
      rw [hopen] at hidle
      exact hidle rfl
    have hnone : c.rollbackEvent? s = none := if_neg (by rw [hclosed]; exact Bool.false_ne_true)
    rw [hnone]
    exact storeTurn_of_quiet (hleft c)

theorem storeTurn_rollbackToIndex : StoreTurn s c (c.rollbackToIndex s i).2 none := by
  cases hq : (c.tx s).savepoints[i]? with
  | none =>
    unfold rollbackToIndex
    rw [hq]
    exact storeTurn_refl nofun
  | some q =>
    obtain ⟨-, hactions, -, -⟩ := rollbackToIndex_undone hq
    refine .undoes (storage_rollbackToIndex hq) hactions (fun hopen _ => ⟨fun _ => ?_, fun t ht => ?_⟩)
      (fun _ hevent => absurd hevent (Option.not_mem_none _))
    · have hterms := terms_rollbackToIndex (c := c) (s := s) (i := i)
      exact (congrArg TxTerms.isOpen hterms).trans hopen
    · unfold rollbackToIndex
      rw [hq]
      exact ht

theorem storeTurn_rollbackToSavepoint {name : String} :
    StoreTurn s c (c.rollbackToSavepoint s name).2 none := by
  unfold rollbackToSavepoint
  split
  next => exact storeTurn_refl nofun
  next => exact storeTurn_rollbackToIndex

theorem storeTurn_setTx {tx : SessionTx} (hactions : tx.actions = (c.tx s).actions)
    (hopen : tx.isOpen = (c.tx s).isOpen) : StoreTurn s c (c.setTx s tx) none := by
  have htx : (c.setTx s tx).tx s = tx := tx_setTx_self
  refine .stays rfl ?_ ⟨fun h => ?_, fun _ => id⟩ nofun
  · rw [htx, hactions]
  · rw [htx, hopen]
    exact h

end Coordinator

namespace Session

variable {s : SessionId} {c : Coordinator} {x x' : Session} {t : TableId} {k : SessionCall}

/-- The rows that a session still has to delete are at their places. -/
def Aims (x : Session) (storage : Storage) : Prop :=
  match x.activity with
  | .deleting t rows _ _ => ∀ row ∈ rows, storage.get? t row.position = some row
  | _ => True

theorem aims_of_phase {storage : Storage} (h : x.phase ≠ .inside) : x.Aims storage := by
  unfold Aims
  split
  next hactivity => simp [phase, hactivity] at h
  next => trivial

/-- No call leads into the run of a statement at once. -/
theorem phase_call : (x.call s c k).1.phase ≠ .inside := by
  by_cases hk : ∀ statement, k ≠ .execute statement
  · by_cases hclosed : x.closed = true
    · obtain ⟨timeout, reply, hcall⟩ := call_of_closed (s := s) (c := c) hclosed k
      rw [hcall]
      exact nofun
    · rw [call_of_open (Bool.eq_false_iff.mpr hclosed), phase_callOpen hk]
      exact nofun
  · obtain ⟨statement, hexecute⟩ := not_forall_not.mp hk
    subst hexecute
    rcases x.call_execute (s := s) (c := c) statement with hphase | ⟨hphase, -⟩ <;>
      · rw [hphase]
        exact nofun

theorem phase_of_access {a : Access} (he : x.observe s c = some (.access a)) : x.phase = .inside := by
  unfold observe at he
  unfold phase
  split at he
  next hactivity => simp only [hactivity]
  next hactivity => simp only [hactivity]
  next => exact absurd he commitEvent?_ne_access
  next => exact absurd he rollbackEvent?_ne_access
  next => cases he

theorem insert_storeTurn (hruns : c.Executes s x.statement.request) {values : List Value}
    {next : Except Failure RowPosition → StatementBody} :
    StoreTurn s c (c.insertInto s x.statement.request t values).2
      ((x.access? s c (.insert t values next)).map .access) := by
  have hup : Upholds s c (c.insertInto s x.statement.request t values).2 :=
    hruns.handles_insertInto.upholds
  unfold Coordinator.insertInto at hup ⊢
  cases hwritable : c.writable x.statement.request t with
  | error f => exact storeTurn_refl goesOn_map.ends
  | ok done =>
    have hevent : (x.access? s c (.insert t values next)).map .access =
        some (Event.access ⟨s, t, .insert⟩) := by
      rw [access?, hwritable]
      rfl
    have hmode := hruns.written (mem_writes_of_writable (by rw [hwritable]; rfl))
    rw [hwritable] at hup
    rw [hevent]
    have hinsert : Upholds s c (c.insertRow s t t values).2 →
        StoreTurn s c (c.insertRow s t t values).2 (some (.access ⟨s, t, .insert⟩)) :=
      storeTurn_insertRow hruns.isOpen hmode
    dsimp only at hup ⊢
    generalize c.insertRow s t t values = inserted at hinsert hup
    obtain ⟨answer, c₁⟩ := inserted
    cases answer <;> exact hinsert hup

theorem delete_storeTurn (hruns : c.Executes s x.statement.request) (hs : c.storage.Found)
    {position : RowPosition} {next : Except Failure Unit → StatementBody} :
    StoreTurn s c (c.deleteAt s x.statement.request t position).2
      ((x.access? s c (.delete t position next)).map .access) := by
  unfold Coordinator.deleteAt
  cases hwritable : c.writable x.statement.request t with
  | error f => exact storeTurn_refl goesOn_map.ends
  | ok done =>
    have hevent : (x.access? s c (.delete t position next)).map .access =
        some (Event.access ⟨s, t, .delete⟩) := by
      rw [access?, hwritable]
      rfl
    rw [hevent]
    dsimp only
    split
    next => exact storeTurn_refl goes_access
    next row hrow =>
      have hmode := hruns.written (mem_writes_of_writable (by rw [hwritable]; rfl))
      obtain ⟨-, rfl⟩ := hs hrow
      exact storeTurn_recordDelete hruns.isOpen hmode hrow

theorem runBody_storeTurn (hruns : c.Executes s x.statement.request) (hs : c.storage.Found)
    (body : StatementBody) :
    StoreTurn s c (x.runBody s c body).2 ((x.access? s c body).map .access) := by
  have hsignal (f : Signals → Signals) :
      StoreTurn s c (c.signal s f) ((x.access? s c body).map .access) :=
    .stays rfl (actions_of_work quiet_signal.work) quiet_signal.toUpholds goesOn_map.ends
  cases body with
  | insert t values next => exact insert_storeTurn hruns
  | delete t position next => exact delete_storeTurn hruns hs
  | requestRedo next => exact hsignal _
  | raiseAbort next => exact hsignal _
  | deleteWhere t test next =>
    dsimp only [runBody]
    split <;> exact storeTurn_refl goesOn_map.ends
  | _ => exact storeTurn_refl goesOn_map.ends

theorem Stands.storeTurn_step (hstands : x.Stands s c) (hs : c.storage.Found)
    (haims : x.Aims c.storage) : StoreTurn s c (x.step s c).2 (x.observe s c) := by
  unfold Stands at hstands
  unfold Aims at haims
  have hnone : StoreTurn s c c none := storeTurn_refl nofun
  cases hactivity : x.activity with
  | idle =>
    simp only [step, observe, hactivity]
    exact hnone
  | entering =>
    simp only [step, observe, hactivity]
    split <;> exact hnone
  | acquiring =>
    have hbegins := c.beginStatement_begins s x.statement.request
    simp only [step, observe, hactivity]
    generalize c.beginStatement s x.statement.request = begun at hbegins
    obtain ⟨answer, c₁⟩ := begun
    have hturn := storeTurn_of_quiet hbegins.quiet
    split
    all_goals
      next heq =>
        cases heq
        exact hturn
  | waiting =>
    simp only [step, observe, hactivity]
    split <;> exact hnone
  | timedOut =>
    simp only [step, observe, hactivity]
    exact storeTurn_of_quiet quiet_cancelWait
  | resuming =>
    have hturn : StoreTurn s c (c.resumeStatement s).2 none := storeTurn_of_quiet quiet_resumeStatement
    simp only [step, observe, hactivity]
    split
    next => exact hnone
    next =>
      generalize c.resumeStatement s = resumed at hturn
      obtain ⟨answer, c₁⟩ := resumed
      cases answer <;> exact hturn
  | running body =>
    simp only [hactivity] at hstands
    simp only [step, observe, hactivity]
    exact runBody_storeTurn hstands hs body
  | deleting t rows count next =>
    simp only [hactivity] at hstands haims
    cases rows with
    | nil =>
      simp only [step, observe, hactivity]
      exact hnone
    | cons row rows =>
      obtain ⟨hruns, ht⟩ := hstands
      have hturn : StoreTurn s c (c.recordDelete s t row).2 (some (.access ⟨s, t, .delete⟩)) :=
        storeTurn_recordDelete hruns.isOpen (hruns.written ht) (haims row List.mem_cons_self)
      simp only [step, observe, hactivity]
      generalize c.recordDelete s t row = deleted at hturn
      obtain ⟨answer, c₁⟩ := deleted
      cases answer <;> exact hturn
  | failing error =>
    simp only [step, observe, hactivity]
    exact storeTurn_rollbackStatement (.refl s c)
  | failed error =>
    simp only [step, observe, hactivity]
    split
    next => exact hnone
    next => split <;> exact hnone
  | finishing result =>
    have htaken : Quiet s c (c.signal s fun _ => (c.tx s).signals.takeRedo.2) := quiet_signal
    simp only [step, observe, hactivity]
    split
    next => exact storeTurn_rollbackStatement htaken
    next => exact storeTurn_of_quiet (htaken.trans quiet_completeStatement)
  | finished result =>
    simp only [step, observe, hactivity]
    split
    next => exact hnone
    next => split <;> exact hnone
  | committing autocommit answer =>
    have hturn : StoreTurn s c (c.commit s).2 (c.commitEvent? s) := storeTurn_commit
    simp only [step, observe, hactivity]
    generalize c.commit s = committed at hturn
    obtain ⟨result, c₁⟩ := committed
    split
    all_goals
      next heq =>
        cases heq
        exact hturn
  | rollingBack reply =>
    simp only [step, observe, hactivity]
    exact storeTurn_rollback rfl rfl

/-- After a step too, the rows that are still to be deleted are at their places. -/
theorem Aims.step (haims : x.Aims c.storage) (hs : c.storage.Found) :
    (x.step s c).1.Aims (x.step s c).2.storage := by
  unfold Aims at haims
  cases hactivity : x.activity with
  | running body =>
    simp only [Session.step, hactivity]
    cases body with
    | deleteWhere t test next =>
      dsimp only [runBody]
      split
      next => trivial
      next rows hrows =>
        exact fun row hrow => hs.get?_of_mem_scan (mem_scan_of_deletable hrows hrow)
    | _ => trivial
  | deleting t rows count next =>
    simp only [hactivity] at haims
    cases rows with
    | nil =>
      simp only [Session.step, hactivity]
      trivial
    | cons row rows =>
      have hkept (p : RowPosition) :
          (c.recordDelete s t row).2.storage.get? t p = c.storage.get? t p := get?_recordDelete
      simp only [Session.step, hactivity]
      generalize c.recordDelete s t row = deleted at hkept
      obtain ⟨answer, c₁⟩ := deleted
      cases answer with
      | error f => trivial
      | ok done =>
        intro other hother
        exact (hkept _).trans (haims other (List.mem_cons_of_mem row hother))
  | waiting =>
    simp only [Session.step, hactivity]
    split
    next => trivial
    next => trivial
    next => trivial
    next => exact aims_of_phase (by simp [phase, hactivity])
  | idle =>
    simp only [Session.step, hactivity]
    exact aims_of_phase (by simp [phase, hactivity])
  | _ =>
    -- No other step comes upon rows to be deleted.
    simp only [Session.step, hactivity]
    repeat' split
    all_goals trivial

/-- A rollback to a savepoint is written down if it succeeds. -/
theorem undone_storeTurn {undone : Except Failure Unit × Coordinator} {sql : String}
    (h : StoreTurn s c undone.2 none) : StoreTurn s c
      (match undone with
        | (.error f, c) => (x.finish (.error f), c)
        | (.ok (), c) => (x.finish (.ok .done), c.noteStatement s sql)).2 none := by
  obtain ⟨answer, c₁⟩ := undone
  cases answer with
  | error f => exact h
  | ok done => exact h.before quiet_noteStatement

theorem callOpen_storeTurn (hclosed : x.closed = false) (k : SessionCall) :
    StoreTurn s c (x.callOpen s c k).2 (x.callEvent? s c k) := by
  have hnone : StoreTurn s c c none := storeTurn_refl nofun
  cases k with
  | begin => exact storeTurn_of_quiet quiet_beginTransaction
  | prepare =>
    have hprepared : StoreTurn s c (c.prepare s).2 none := storeTurn_of_quiet quiet_prepare
    dsimp only [callOpen, callEvent?]
    generalize c.prepare s = prepared at hprepared
    obtain ⟨answer, c₁⟩ := prepared
    cases answer <;> exact hprepared
  | rollback =>
    dsimp only [callOpen, callEvent?]
    split
    next => exact storeTurn_of_quiet quiet_noteStatement
    next => exact hnone
  | savepoint name =>
    have hset : StoreTurn s c (c.updateTx s (·.setSavepoint name)) none := storeTurn_setTx rfl rfl
    exact hset.before quiet_noteStatement
  | rollbackTo name => exact undone_storeTurn storeTurn_rollbackToSavepoint
  | rollbackToFirst => exact undone_storeTurn storeTurn_rollbackToIndex
  | release name =>
    dsimp only [callOpen, callEvent?]
    split
    next => exact hnone
    next => exact storeTurn_setTx rfl rfl
  | setAutocommit on =>
    dsimp only [callOpen, callEvent?]
    split <;> exact hnone
  | setIsolation level =>
    dsimp only [callOpen, callEvent?, SessionTx.setIsolation]
    split
    next => exact hnone
    next => exact storeTurn_setTx rfl rfl
  | setReadOnly on =>
    dsimp only [callOpen, callEvent?, SessionTx.setReadOnly]
    split
    next => exact hnone
    next => exact storeTurn_setTx rfl rfl
  | setIsolationDefault level => exact storeTurn_setTx rfl rfl
  | setReadOnlyDefault on => exact storeTurn_setTx rfl rfl
  | execute statement =>
    dsimp only [callOpen, callEvent?]
    split <;> exact hnone
  | close =>
    simp only [callOpen, callEvent?, close, hclosed, Bool.false_eq_true, if_false]
    exact storeTurn_unregister
  | _ => exact hnone

theorem call_storeTurn (k : SessionCall) : StoreTurn s c (x.call s c k).2 (x.callEvent? s c k) := by
  by_cases hclosed : x.closed = true
  · obtain ⟨timeout, reply, hcall⟩ := call_of_closed (s := s) (c := c) hclosed k
    have hnone : x.callEvent? s c k = none := by
      cases k with
      | close => exact if_pos hclosed
      | _ => rfl
    rw [hcall, hnone]
    exact storeTurn_refl nofun
  · have hopen := Bool.eq_false_iff.mpr hclosed
    have hturn := callOpen_storeTurn (s := s) (c := c) (x := { x with reply := none, runs := 0 })
      hopen k
    rw [call_of_open hopen]
    exact hturn

end Session

end LockingDb
