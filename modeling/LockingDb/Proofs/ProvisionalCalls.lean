import LockingDb.Proofs.CallMoves

namespace LockingDb

open Coordinator Session

/-- The entry of a commit of the session. -/
def LogRecord.isCommitOf (s : SessionId) : LogRecord → Bool
  | .commit x _ => x = s
  | _ => false

/-- A call that makes an action on a row final. -/
def StoreCall.isFinal : StoreCall → Bool
  | .commit _ _ => true
  | .index _ | .delete _ | .rollback _ _ => false

namespace Journal

variable {j j' : Journal} {s : SessionId} {call : LogCall}

/-- The commits of a session in the log. -/
def commitsOf (j : Journal) (s : SessionId) : List LogRecord := j.records.filter (·.isCommitOf s)

theorem commitsOf_congr (h : j'.entries = j.entries) : j'.commitsOf s = j.commitsOf s := by
  have hsub (j : Journal) : j.commitsOf s = j.entries.filter (·.isCommitOf s) := by
    rw [entries, List.filter_filter]
    refine (List.filter_congr fun r _ => ?_).symm
    cases r <;> simp [LogRecord.isCommitOf, LogRecord.isWork]
  rw [hsub, hsub, h]

theorem commitsOf_write (h : ∀ r ∈ call.record?, r.isCommitOf s = false) :
    (j.write call).2.commitsOf s = j.commitsOf s := by
  unfold write commitsOf
  dsimp only
  cases j.faults j.calls call with
  | some f => rfl
  | none =>
    have hnone : call.record?.toList.filter (·.isCommitOf s) = [] := by
      refine List.filter_eq_nil_iff.mpr fun r hr => ?_
      rw [h r (Option.mem_toList.mp hr)]
      exact Bool.false_ne_true
    rw [List.filter_append, hnone, List.append_nil]

end Journal

namespace Coordinator

variable {c c' c₂ : Coordinator} {s y : SessionId} {r : LockRequest} {t : TableId} {now : Timestamp}
  {storage : Storage} {journal : Journal}

theorem commitsOf_persistActions {transient : List RowId} {as : List RowAction} :
    (persistActions y transient storage as journal).2.commitsOf s = journal.commitsOf s := by
  induction as generalizing journal with
  | nil => rfl
  | cons a rest ih =>
    unfold persistActions
    split
    next => exact ih
    next =>
      split
      next => exact ih
      next row _ =>
        have haction : (journal.write (.action y a.type row)).2.commitsOf s = journal.commitsOf s := by
          refine Journal.commitsOf_write fun r hr => ?_
          have hr : LogRecord.ofAction? y a.type row = some r := hr
          cases htype : a.type
          all_goals
            rw [htype] at hr
            cases hr
          all_goals rfl
        split
        next heq =>
          rw [heq] at haction
          exact haction
        next heq =>
          rw [heq] at haction
          exact ih.trans haction

/-- Only the commit of a session adds a commit of that session to the log. -/
theorem commitsOf_persist (hy : y ≠ s) {as : List RowAction} :
    (persist y now as storage journal).2.commitsOf s = journal.commitsOf s := by
  unfold persist
  split
  next => rfl
  next =>
    dsimp only
    have hactions : (persistActions y ((as.filter (·.type = .insertThenDelete)).map RowAction.row)
        storage as journal).2.commitsOf s = journal.commitsOf s := commitsOf_persistActions
    split
    next heq =>
      rw [heq] at hactions
      exact hactions
    next j heq =>
      rw [heq] at hactions
      refine (Journal.commitsOf_write fun r hr => ?_).trans hactions
      cases hr
      exact decide_eq_false hy

/-- A call that makes nothing final: the log gets no work, and no store is told that an action is
committed. -/
structure Provisional (c c' : Coordinator) : Prop where
  entries : c'.journal.entries = c.journal.entries
  calls : c.storage.Adds (·.2.isFinal = false) c'.storage

theorem Provisional.refl (c : Coordinator) : Provisional c c := ⟨rfl, Storage.adds_of_eq rfl⟩

theorem Provisional.trans (h : Provisional c c') (h₂ : Provisional c' c₂) : Provisional c c₂ :=
  ⟨h₂.entries.trans h.entries, h.calls.trans h₂.calls⟩

theorem Quiet.provisional (h : Quiet s c c') : Provisional c c' :=
  ⟨h.entries, Storage.adds_of_eq h.storage⟩

theorem provisional_of_adds (hjournal : c'.journal = c.journal)
    (hcalls : c.storage.Adds (·.2.isFinal = false) c'.storage) : Provisional c c' :=
  ⟨congrArg Journal.entries hjournal, hcalls⟩

theorem provisional_recordInsert {row : Row} : Provisional c (c.recordInsert s t row).2 := by
  refine provisional_of_adds ?_ (recordInsert_adds rfl)
  unfold recordInsert
  split <;> rfl

theorem provisional_recordDelete {row : Row} : Provisional c (c.recordDelete s t row).2 := by
  refine provisional_of_adds ?_ (recordDelete_adds rfl)
  unfold recordDelete
  split
  next => rfl
  next => split <;> rfl

theorem provisional_insertRow {values : List Value} : Provisional c (c.insertRow s t t values).2 := by
  have hnew : c.storage.Adds (·.2.isFinal = false) (c.storage.newRow t values).2 :=
    Storage.newRow_adds
  unfold insertRow
  generalize c.storage.newRow t values = allotted at hnew
  obtain ⟨outcome, storage⟩ := allotted
  cases outcome with
  | error f => exact provisional_of_adds rfl hnew
  | ok row =>
    have hstored : Provisional c { c with storage } := provisional_of_adds rfl hnew
    have hrecord : Provisional { c with storage } ({ c with storage }.recordInsert s t row).2 :=
      provisional_recordInsert
    dsimp only
    generalize { c with storage }.recordInsert s t row = recorded at hrecord
    obtain ⟨answer, c₁⟩ := recorded
    cases answer <;> exact hstored.trans hrecord

theorem provisional_insertInto {values : List Value} :
    Provisional c (c.insertInto s r t values).2 := by
  rcases insertInto_eq (c := c) (s := s) (r := r) (t := t) with heq | heq
  · rw [heq]
    exact .refl c
  · rw [heq]
    exact provisional_insertRow

theorem provisional_deleteAt {position : RowPosition} :
    Provisional c (c.deleteAt s r t position).2 := by
  rcases deleteAt_eq (c := c) (s := s) (r := r) (t := t) with heq | ⟨row, heq⟩
  · rw [heq]
    exact .refl c
  · rw [heq]
    exact provisional_recordDelete

theorem provisional_rollbackStatement : Provisional c (c.rollbackStatement s) :=
  ⟨journal_rollbackStatement.1, (rollbackStatement_last fun _ _ _ _ => rfl).adds⟩

theorem provisional_rollback : Provisional c (c.rollback s) :=
  provisional_of_adds rollback_journal (rollback_last fun _ _ _ _ => rfl).adds

theorem provisional_rollbackToIndex {i : Nat} : Provisional c (c.rollbackToIndex s i).2 := by
  refine provisional_of_adds ?_ (rollbackToIndex_adds fun _ _ _ _ => rfl)
  unfold rollbackToIndex
  split <;> rfl

theorem provisional_rollbackToSavepoint {name : String} :
    Provisional c (c.rollbackToSavepoint s name).2 := by
  unfold rollbackToSavepoint
  split
  next => exact .refl c
  next => exact provisional_rollbackToIndex

theorem provisional_unregister : Provisional c (c.unregister s) := by
  have hwithdrawn (c₁ : Coordinator) : (c₁.withdraw s).journal = c₁.journal :=
    journal_of_data withdraw_data
  refine provisional_of_adds ?_ (unregister_last fun _ _ _ _ => rfl).adds
  show (withdraw _ s).journal = c.journal
  rw [hwithdrawn]
  split
  next => exact rollback_journal
  next => rfl

end Coordinator

namespace Session

variable {c c' : Coordinator} {s y : SessionId} {x : Session}

theorem provisional_runBody {body : StatementBody} : Provisional c (x.runBody s c body).2 := by
  cases body with
  | requestRedo next => exact quiet_signal.provisional
  | raiseAbort next => exact quiet_signal.provisional
  | insert t values next => exact provisional_insertInto
  | delete t position next => exact provisional_deleteAt
  | deleteWhere t test next =>
    dsimp only [runBody]
    split <;> exact .refl c
  | _ => exact .refl c

/-- Only the step of a session that commits makes something final. -/
theorem provisional_step
    (h : ∀ autocommit answer, x.activity ≠ .committing autocommit answer) :
    Provisional c (x.step s c).2 := by
  unfold step
  split
  next => exact .refl c
  next => split <;> exact .refl c
  next =>
    have hbegun : Provisional c (c.beginStatement s x.statement.request).2 :=
      (beginStatement_begins c s x.statement.request).quiet.provisional
    generalize c.beginStatement s x.statement.request = begun at hbegun
    split <;> exact hbegun
  next => split <;> exact .refl c
  next => exact quiet_cancelWait.provisional
  next =>
    have hresumed : Provisional c (c.resumeStatement s).2 := quiet_resumeStatement.provisional
    generalize c.resumeStatement s = resumed at hresumed
    obtain ⟨answer, c₁⟩ := resumed
    split
    next => exact .refl c
    next => cases answer <;> exact hresumed
  next => exact provisional_runBody
  next => exact .refl c
  next t row rows count next _ =>
    have hdeleted : Provisional c (c.recordDelete s t row).2 := provisional_recordDelete
    generalize c.recordDelete s t row = deleted at hdeleted
    obtain ⟨answer, c₁⟩ := deleted
    cases answer <;> exact hdeleted
  next => exact provisional_rollbackStatement
  next =>
    split
    next => exact .refl c
    next => split <;> exact .refl c
  next =>
    have htaken : Provisional c (c.signal s fun _ => (c.tx s).signals.takeRedo.2) :=
      (quiet_signal (s := s)).provisional
    dsimp only
    split
    next => exact htaken.trans provisional_rollbackStatement
    next => exact htaken.trans quiet_completeStatement.provisional
  next =>
    split
    next => exact .refl c
    next => split <;> exact .refl c
  next hactivity => exact absurd hactivity (h _ _)
  next => exact provisional_rollback

/-- Nothing is made final at the start of a call. -/
theorem provisional_callOpen (k : SessionCall) : Provisional c (x.callOpen s c k).2 := by
  have hnoted (c₁ : Coordinator) (sql : String) : Provisional c₁ (c₁.noteStatement s sql) :=
    quiet_noteStatement.provisional
  have hset (tx : SessionTx) : Provisional c (c.setTx s tx) := provisional_of_adds rfl
    (Storage.adds_of_eq rfl)
  have hsettled (outcome : Except Failure SessionTx) : Provisional c (x.settle s c outcome).2 := by
    cases outcome with
    | ok tx => exact hset tx
    | error f => exact .refl c
  cases k with
  | begin => exact quiet_beginTransaction.provisional
  | prepare =>
    have hprepared : Provisional c (c.prepare s).2 := quiet_prepare.provisional
    dsimp only [callOpen]
    generalize c.prepare s = prepared at hprepared
    obtain ⟨answer, c₁⟩ := prepared
    cases answer <;> exact hprepared
  | rollback =>
    dsimp only [callOpen]
    split
    next => exact hnoted c _
    next => exact .refl c
  | savepoint name => exact (hset _).trans (hnoted _ _)
  | rollbackTo name =>
    have hundone : Provisional c (c.rollbackToSavepoint s name).2 := provisional_rollbackToSavepoint
    dsimp only [callOpen]
    generalize c.rollbackToSavepoint s name = undone at hundone
    obtain ⟨answer, c₁⟩ := undone
    cases answer with
    | error f => exact hundone
    | ok done => exact hundone.trans (hnoted c₁ _)
  | rollbackToFirst =>
    have hundone : Provisional c (c.rollbackToIndex s 0).2 := provisional_rollbackToIndex
    dsimp only [callOpen]
    generalize c.rollbackToIndex s 0 = undone at hundone
    obtain ⟨answer, c₁⟩ := undone
    cases answer with
    | error f => exact hundone
    | ok done => exact hundone.trans (hnoted c₁ _)
  | release name =>
    dsimp only [callOpen]
    split
    next => exact .refl c
    next => exact hset _
  | setAutocommit on =>
    dsimp only [callOpen]
    split <;> exact .refl c
  | setIsolation level => exact hsettled _
  | setReadOnly on => exact hsettled _
  | setIsolationDefault level => exact hset _
  | setReadOnlyDefault on => exact hset _
  | execute statement =>
    dsimp only [callOpen]
    split <;> exact .refl c
  | close =>
    dsimp only [callOpen, close]
    split
    next => exact .refl c
    next => exact provisional_unregister
  | _ => exact .refl c

theorem provisional_call (k : SessionCall) : Provisional c (x.call s c k).2 := by
  by_cases hclosed : x.closed = true
  · obtain ⟨timeout, reply, hcall⟩ := call_of_closed (s := s) (c := c) hclosed k
    rw [hcall]
    exact .refl c
  · rw [call_of_open (Bool.eq_false_iff.mpr hclosed)]
    exact provisional_callOpen k

/-- A step of a session adds no commit of another one to the log. -/
theorem commitsOf_step (hy : y ≠ s) :
    (x.step y c).2.journal.commitsOf s = c.journal.commitsOf s := by
  by_cases hcommits : ∃ autocommit answer, x.activity = .committing autocommit answer
  · obtain ⟨autocommit, answer, hactivity⟩ := hcommits
    have hwritten : (c.commit y).2.journal.commitsOf s = c.journal.commitsOf s := by
      have hlogged : (persist y c.tick.1 (c.tx y).actions c.storage c.journal).2.commitsOf s =
        c.journal.commitsOf s := commitsOf_persist hy
      have hcommits := c.commit_commits y
      generalize c.commitEvent? y = e, (c.commit y).2 = c' at hcommits
      cases hcommits with
      | refused habort => rfl
      | failed habort hlog =>
        rw [rollback_journal]
        rw [hlog] at hlogged
        exact hlogged
      | @done journal habort hlog =>
        have hended (c₁ : Coordinator) (rows : List RowId) :
            ((c₁.endTx y rows).closeTx y c.tick.1).journal = c₁.journal :=
          journal_of_data endTx_data
        rw [hended]
        rw [hlog] at hlogged
        exact hlogged
    simp only [step, hactivity]
    generalize c.commit y = committed at hwritten
    split <;> exact hwritten
  · have hquiet : Provisional c (x.step y c).2 :=
      provisional_step fun autocommit answer hactivity => hcommits ⟨autocommit, answer, hactivity⟩
    exact Journal.commitsOf_congr hquiet.entries

end Session

end LockingDb
