import LockingDb.Proofs.ChosenModes
import LockingDb.Proofs.ReinsertedRows
import LockingDb.Proofs.SavepointMoves

namespace LockingDb

open Coordinator Session

namespace Coordinator

variable {c c' c₁ : Coordinator} {s : SessionId} {r : LockRequest} {t : TableId} {row : Row}
  {start i : Nat} {now : Timestamp}

/-- All rows of all tables are left as they are, and nothing is in the log of the session. -/
structure LeavesRows (s : SessionId) (c c' : Coordinator) : Prop where
  storage : c'.storage = c.storage
  actions : (c'.tx s).actions = []

theorem leavesRows_refl (hnone : (c.tx s).actions = []) : LeavesRows s c c := ⟨rfl, hnone⟩

theorem LeavesRows.quiet (h : LeavesRows s c c₁) (hq : Quiet s c₁ c') : LeavesRows s c c' :=
  ⟨hq.storage.trans h.storage, (actions_of_work hq.work).trans h.actions⟩

theorem leavesRows_of_quiet (hnone : (c.tx s).actions = []) (hq : Quiet s c c') :
    LeavesRows s c c' := (leavesRows_refl hnone).quiet hq

theorem leavesRows_setTx {tx : SessionTx} (hnone : tx.actions = []) :
    LeavesRows s c (c.setTx s tx) := by
  refine ⟨rfl, ?_⟩
  rw [tx_setTx_self]
  exact hnone

/-- A log without actions has nothing to undo. -/
theorem leavesRows_undoTo (hnone : (c.tx s).actions = []) :
    LeavesRows s c (c.undoTo s start now).2 := by
  have hundone : (c.undoTo s start now).2.storage =
      undoAll now ((c.tx s).actions.drop start).reverse c.storage := storage_undoTo
  rw [hnone, List.drop_nil] at hundone
  refine ⟨hundone, ?_⟩
  rw [actions_undoTo, hnone, List.take_nil]

theorem leavesRows_rollbackStatement (hnone : (c.tx s).actions = []) :
    LeavesRows s c (c.rollbackStatement s) :=
  (leavesRows_undoTo hnone).quiet quiet_rest_of_rollbackStatement

theorem leavesRows_rollbackToIndex (hnone : (c.tx s).actions = []) :
    LeavesRows s c (c.rollbackToIndex s i).2 := by
  cases hq : (c.tx s).savepoints[i]? with
  | none =>
    have hrefused : (c.rollbackToIndex s i).2 = c := by
      unfold rollbackToIndex
      rw [hq]
    rw [hrefused]
    exact leavesRows_refl hnone
  | some q =>
    obtain ⟨-, hactions, -, -⟩ := rollbackToIndex_undone hq
    have hundone : LeavesRows s c (c.undoTo s q.logLength q.timestamp).2 := leavesRows_undoTo hnone
    have hstorage : (c.rollbackToIndex s i).2.storage =
        (c.undoTo s q.logLength q.timestamp).2.storage := by
      unfold rollbackToIndex
      rw [hq]
      rfl
    refine ⟨hstorage.trans hundone.storage, ?_⟩
    rw [hactions, hnone, List.take_nil]

theorem leavesRows_rollbackToSavepoint (hnone : (c.tx s).actions = []) {name : String} :
    LeavesRows s c (c.rollbackToSavepoint s name).2 := by
  unfold rollbackToSavepoint
  split
  next => exact leavesRows_refl hnone
  next => exact leavesRows_rollbackToIndex hnone

theorem leavesRows_rollback (hnone : (c.tx s).actions = []) : LeavesRows s c (c.rollback s) := by
  obtain ⟨now, hstorage⟩ := storage_rollback c s
  obtain ⟨rows, time, c₁, c₂, -, -, heq⟩ := rollback_undone c s
  rw [hnone] at hstorage
  refine ⟨hstorage, ?_⟩
  rw [heq, closeTx, tx_updateTx_self]
  rfl

/-- A log without actions has nothing to make final either. -/
theorem leavesRows_commit (hnone : (c.tx s).actions = []) : LeavesRows s c (c.commit s).2 := by
  have hcommits := c.commit_commits s
  generalize c.commitEvent? s = e, (c.commit s).2 = c' at hcommits
  cases hcommits with
  | refused habort => exact leavesRows_refl hnone
  | @failed f journal habort hlog =>
    have hback : LeavesRows s { c.tick.2 with journal } ({ c.tick.2 with journal }.rollback s) :=
      leavesRows_rollback hnone
    exact ⟨hback.storage, hback.actions⟩
  | @done journal habort hlog =>
    refine ⟨?_, ?_⟩
    · rw [storage_closed, hnone]
      rfl
    · rw [closeTx, tx_updateTx_self]
      rfl

theorem leavesRows_unregister (hnone : (c.tx s).actions = []) :
    LeavesRows s c (c.unregister s) := by
  have hleft (c₁ : Coordinator) (h : LeavesRows s c c₁) : LeavesRows s c { c₁.withdraw s with
      registered := (c₁.withdraw s).registered.erase s } :=
    h.quiet (quiet_withdraw.trans (quiet_of_eq rfl rfl rfl))
  unfold unregister
  dsimp only
  split
  next => exact hleft _ (leavesRows_rollback hnone)
  next => exact hleft c (leavesRows_refl hnone)

/-- A session that leaves has no transaction open any more. -/
theorem isOpen_unregister (hopen : (c.tx s).isOpen = true) :
    ((c.unregister s).tx s).isOpen = false := by
  have hleft (c₁ : Coordinator) : (({ c₁.withdraw s with
      registered := (c₁.withdraw s).registered.erase s } : Coordinator).tx s).isOpen =
        (c₁.tx s).isOpen := congrArg Prod.fst (SessionTx.modes_of_unlatched unlatched_withdraw)
  unfold unregister
  simp only [hopen, Bool.true_or, if_true]
  exact (hleft _).trans restores_rollback.isOpen

theorem writable_of_isEmpty (hr : r.writes.isEmpty = true) : ∃ f, c.writable r t = .error f := by
  refine ⟨_, if_neg ?_⟩
  rw [LockRequest.allowsWrite_iff]
  exact IdSet.isEmpty_iff.mp hr t

end Coordinator

namespace Session

variable {c : Coordinator} {s : SessionId} {x : Session} {k : SessionCall}

/-- A statement that asks for no table to write changes no row. -/
theorem leavesRows_runBody (hnone : (c.tx s).actions = [])
    (hreads : x.statement.request.writes.isEmpty = true) (body : StatementBody) :
    LeavesRows s c (x.runBody s c body).2 := by
  cases body with
  | insert t values next =>
    obtain ⟨f, hrefused⟩ := writable_of_isEmpty (c := c) (t := t) hreads
    simp only [runBody, insertInto, hrefused]
    exact leavesRows_refl hnone
  | delete t position next =>
    obtain ⟨f, hrefused⟩ := writable_of_isEmpty (c := c) (t := t) hreads
    simp only [runBody, deleteAt, hrefused]
    exact leavesRows_refl hnone
  | deleteWhere t test next =>
    dsimp only [runBody]
    split <;> exact leavesRows_refl hnone
  | requestRedo next => exact leavesRows_of_quiet hnone quiet_signal
  | raiseAbort next => exact leavesRows_of_quiet hnone quiet_signal
  | _ => exact leavesRows_refl hnone

theorem leavesRows_step (hstands : x.Stands s c) (hnone : (c.tx s).actions = [])
    (hreads : x.phase = .inside → x.statement.request.writes.isEmpty = true) :
    LeavesRows s c (x.step s c).2 := by
  have hstays : LeavesRows s c c := leavesRows_refl hnone
  unfold Stands at hstands
  unfold step
  cases hactivity : x.activity with
  | idle => exact hstays
  | entering =>
    dsimp only
    split <;> exact hstays
  | acquiring =>
    have hbegun : LeavesRows s c (c.beginStatement s x.statement.request).2 :=
      leavesRows_of_quiet hnone (c.beginStatement_begins s x.statement.request).quiet
    generalize c.beginStatement s x.statement.request = begun at hbegun
    obtain ⟨f | (_ | _), c₁⟩ := begun
    case error => cases f <;> exact hbegun
    all_goals exact hbegun
  | waiting =>
    dsimp only
    split <;> exact hstays
  | timedOut => exact leavesRows_of_quiet hnone quiet_cancelWait
  | resuming =>
    have hresumed : LeavesRows s c (c.resumeStatement s).2 :=
      leavesRows_of_quiet hnone quiet_resumeStatement
    dsimp only
    split
    next => exact hstays
    next =>
      generalize c.resumeStatement s = resumed at hresumed
      obtain ⟨answer, c₁⟩ := resumed
      cases answer <;> exact hresumed
  | running body => exact leavesRows_runBody hnone (hreads (by simp [phase, hactivity])) body
  | deleting t rows count next =>
    simp only [hactivity] at hstands
    have hempty := IdSet.isEmpty_iff.mp (hreads (by simp [phase, hactivity]))
    exact absurd hstands.2 (hempty t)
  | failing error => exact leavesRows_rollbackStatement hnone
  | failed error =>
    dsimp only
    split
    next => exact hstays
    next => split <;> exact hstays
  | finishing result =>
    have htaken : LeavesRows s c (c.signal s fun _ => (c.tx s).signals.takeRedo.2) :=
      leavesRows_of_quiet hnone quiet_signal
    dsimp only
    split
    next =>
      have hback : LeavesRows s (c.signal s fun _ => (c.tx s).signals.takeRedo.2) _ :=
        leavesRows_rollbackStatement htaken.actions
      exact ⟨hback.storage.trans htaken.storage, hback.actions⟩
    next => exact htaken.quiet quiet_completeStatement
  | finished result =>
    dsimp only
    split
    next => exact hstays
    next => split <;> exact hstays
  | committing autocommit answer =>
    have hcommitted : LeavesRows s c (c.commit s).2 := leavesRows_commit hnone
    dsimp only
    generalize c.commit s = committed at hcommitted
    obtain ⟨f | (_ | _), c₁⟩ := committed <;> exact hcommitted
  | rollingBack reply => exact leavesRows_rollback hnone

theorem leavesRows_callOpen (hnone : (c.tx s).actions = []) (k : SessionCall) :
    LeavesRows s c (x.callOpen s c k).2 := by
  have hstays : LeavesRows s c c := leavesRows_refl hnone
  cases k with
  | begin => exact leavesRows_of_quiet hnone quiet_beginTransaction
  | prepare =>
    have hprepared : LeavesRows s c (c.prepare s).2 := leavesRows_of_quiet hnone quiet_prepare
    dsimp only [callOpen]
    generalize c.prepare s = prepared at hprepared
    obtain ⟨_ | _, c₁⟩ := prepared <;> exact hprepared
  | rollback =>
    dsimp only [callOpen]
    split
    next => exact leavesRows_of_quiet hnone quiet_noteStatement
    next => exact hstays
  | savepoint name =>
    have hmarked : LeavesRows s c (c.updateTx s (·.setSavepoint name)) := leavesRows_setTx hnone
    exact hmarked.quiet quiet_noteStatement
  | rollbackTo name =>
    have hundone : LeavesRows s c (c.rollbackToSavepoint s name).2 :=
      leavesRows_rollbackToSavepoint hnone
    dsimp only [callOpen]
    generalize c.rollbackToSavepoint s name = undone at hundone
    obtain ⟨answer, c₁⟩ := undone
    cases answer with
    | error f => exact hundone
    | ok done => exact hundone.quiet quiet_noteStatement
  | rollbackToFirst =>
    have hundone : LeavesRows s c (c.rollbackToIndex s 0).2 := leavesRows_rollbackToIndex hnone
    dsimp only [callOpen]
    generalize c.rollbackToIndex s 0 = undone at hundone
    obtain ⟨answer, c₁⟩ := undone
    cases answer with
    | error f => exact hundone
    | ok done => exact hundone.quiet quiet_noteStatement
  | release name =>
    dsimp only [callOpen]
    split
    next => exact hstays
    next => exact leavesRows_setTx hnone
  | setAutocommit on =>
    dsimp only [callOpen]
    split <;> exact hstays
  | setIsolation level =>
    dsimp only [callOpen, SessionTx.setIsolation]
    split
    next => exact hstays
    next => exact leavesRows_setTx hnone
  | setReadOnly on =>
    dsimp only [callOpen, SessionTx.setReadOnly]
    split
    next => exact hstays
    next => exact leavesRows_setTx hnone
  | setIsolationDefault level => exact leavesRows_setTx hnone
  | setReadOnlyDefault on => exact leavesRows_setTx hnone
  | execute statement =>
    dsimp only [callOpen]
    split <;> exact hstays
  | close =>
    dsimp only [callOpen, close]
    split
    next => exact hstays
    next => exact leavesRows_unregister hnone
  | _ => exact hstays

theorem leavesRows_call (hnone : (c.tx s).actions = []) (k : SessionCall) :
    LeavesRows s c (x.call s c k).2 := by
  by_cases hgone : x.closed = true
  · obtain ⟨timeout, reply, hcall⟩ := call_of_closed (s := s) (c := c) hgone k
    rw [hcall]
    exact leavesRows_refl hnone
  · rw [call_of_open (Bool.eq_false_iff.mpr hgone)]
    exact leavesRows_callOpen hnone k

/-- The access mode holds until the end of the transaction. -/
theorem readOnly_callOpen (hopen : (c.tx s).isOpen = true)
    (hstill : ((x.callOpen s c k).2.tx s).isOpen = true) :
    ((x.callOpen s c k).2.tx s).readOnly = (c.tx s).readOnly := by
  have hof {c' : Coordinator} (hchoices : (c'.tx s).choices = (c.tx s).choices) :
      (c'.tx s).readOnly = (c.tx s).readOnly := congrArg Choices.readOnly hchoices
  cases k with
  | begin => exact hof choices_beginTransaction
  | prepare =>
    have hprepared := hof (c.choices_prepare (s := s))
    dsimp only [callOpen]
    generalize c.prepare s = prepared at hprepared
    obtain ⟨_ | _, c₁⟩ := prepared <;> exact hprepared
  | rollback =>
    dsimp only [callOpen]
    split <;> rfl
  | savepoint name => exact hof (choices_setTx rfl)
  | rollbackTo name =>
    have hterms : ((c.rollbackToSavepoint s name).2.tx s).terms = (c.tx s).terms :=
      terms_rollbackToSavepoint
    have hundone := hof (SessionTx.choices_of_terms hterms)
    dsimp only [callOpen]
    generalize c.rollbackToSavepoint s name = undone at hundone
    obtain ⟨answer, c₁⟩ := undone
    cases answer <;> exact hundone
  | rollbackToFirst =>
    have hundone := hof (SessionTx.choices_of_terms (terms_rollbackToIndex (c := c) (s := s) (i := 0)))
    dsimp only [callOpen]
    generalize c.rollbackToIndex s 0 = undone at hundone
    obtain ⟨answer, c₁⟩ := undone
    cases answer <;> exact hundone
  | release name =>
    dsimp only [callOpen]
    split
    next => rfl
    next => exact hof (choices_setTx rfl)
  | setAutocommit on =>
    dsimp only [callOpen]
    split <;> rfl
  | setIsolation level =>
    dsimp only [callOpen, SessionTx.setIsolation]
    rw [if_pos hopen]
    rfl
  | setReadOnly on =>
    dsimp only [callOpen, SessionTx.setReadOnly]
    rw [if_pos hopen]
    rfl
  | setIsolationDefault level =>
    show ((c.updateTx s (·.setIsolationDefault level)).tx s).readOnly = _
    rw [tx_updateTx_self]
    rfl
  | setReadOnlyDefault on =>
    show ((c.updateTx s (·.setReadOnlyDefault on)).tx s).readOnly = _
    rw [tx_updateTx_self]
    exact if_pos hopen
  | execute statement =>
    dsimp only [callOpen]
    split <;> rfl
  | close =>
    dsimp only [callOpen, close] at hstill ⊢
    split
    next => rfl
    next hlive =>
      rw [if_neg hlive] at hstill
      rw [isOpen_unregister hopen] at hstill
      cases hstill
  | _ => rfl

theorem readOnly_call (hopen : (c.tx s).isOpen = true)
    (hstill : ((x.call s c k).2.tx s).isOpen = true) :
    ((x.call s c k).2.tx s).readOnly = (c.tx s).readOnly := by
  by_cases hgone : x.closed = true
  · obtain ⟨timeout, reply, hcall⟩ := call_of_closed (s := s) (c := c) hgone k
    rw [hcall]
  · rw [call_of_open (Bool.eq_false_iff.mpr hgone)] at hstill ⊢
    exact readOnly_callOpen hopen hstill

/-- A session in the middle of a statement, before or in one of its runs. -/
def AtStatement (x : Session) : Prop := x.phase = .outside ∨ x.phase = .inside

theorem not_atStatement {x' : Session} (h : x'.phase = .elsewhere) : ¬x'.AtStatement := by
  rintro (hphase | hphase) <;> rw [h] at hphase <;> cases hphase

/-- Of all calls only a statement is worked on, and no other call is worked on as one. -/
theorem phase_callOpen (hk : ∀ statement, k ≠ .execute statement) :
    (x.callOpen s c k).1.phase = .elsewhere := by
  cases k with
  | execute statement => exact absurd rfl (hk statement)
  | prepare =>
    dsimp only [callOpen]
    generalize c.prepare s = prepared
    obtain ⟨_ | _, c₁⟩ := prepared <;> rfl
  | rollbackTo name =>
    dsimp only [callOpen]
    generalize c.rollbackToSavepoint s name = undone
    obtain ⟨answer, c₁⟩ := undone
    cases answer <;> rfl
  | rollbackToFirst =>
    dsimp only [callOpen]
    generalize c.rollbackToIndex s 0 = undone
    obtain ⟨answer, c₁⟩ := undone
    cases answer <;> rfl
  | release name =>
    dsimp only [callOpen]
    split <;> rfl
  | setAutocommit on =>
    dsimp only [callOpen]
    split <;> rfl
  | setIsolation level =>
    dsimp only [callOpen]
    cases (c.tx s).setIsolation level <;> rfl
  | setReadOnly on =>
    dsimp only [callOpen]
    cases (c.tx s).setReadOnly on <;> rfl
  | setControl mode =>
    dsimp only [callOpen]
    cases setControl s c mode <;> rfl
  | _ => rfl

/-- A statement that has been let in asks for no table to write in read-only mode. -/
theorem atStatement_call (hat : (x.call s c k).1.AtStatement) : (x.call s c k).2 = c ∧
    ((c.tx s).readOnly = true → (x.call s c k).1.statement.request.writes.isEmpty = true) := by
  by_cases hgone : x.closed = true
  · obtain ⟨timeout, reply, hcall⟩ := call_of_closed (s := s) (c := c) hgone k
    rw [hcall] at hat
    exact absurd hat (not_atStatement rfl)
  · rw [call_of_open (Bool.eq_false_iff.mpr hgone)] at hat ⊢
    by_cases hk : ∀ statement, k ≠ .execute statement
    · exact absurd hat (not_atStatement (phase_callOpen hk))
    · obtain ⟨statement, hexecute⟩ := not_forall_not.mp hk
      subst hexecute
      dsimp only [callOpen] at hat ⊢
      split at hat
      next => exact absurd hat (not_atStatement rfl)
      next hlet =>
        rw [if_neg hlet]
        refine ⟨rfl, fun hmode => ?_⟩
        have hempty : statement.request.writes.isEmpty = true := by simpa [hmode] using hlet
        exact hempty

theorem atStatement_step (hat : (x.step s c).1.AtStatement) :
    x.AtStatement ∧ (x.step s c).1.statement = x.statement := by
  have hpasses := x.step_passes (s := s) (c := c)
  generalize x.step s c = stepped at hat hpasses
  obtain ⟨x', c'⟩ := stepped
  cases hpasses with
  | leaves helsewhere => exact absurd hat (not_atStatement helsewhere)
  | waits hfrom hto hstatement => exact ⟨.inl hfrom, hstatement⟩
  | begins hfrom hto =>
    refine ⟨.inl (by simp [phase, hfrom]), ?_⟩
    rw [hto]
  | works hfrom hgoes hto hstatement => exact ⟨.inr hfrom, hstatement⟩
  | takesBack htakes hto hstatement => exact ⟨.inr (inside_of_takesBack htakes), hstatement⟩
  | completes hfrom hto =>
    rcases hat with hphase | hphase <;> rw [hto] at hphase <;> cases hphase

theorem endsTx_of_atStatement (hat : x.AtStatement) : x.endsTx s c = false := by
  unfold AtStatement phase at hat
  unfold endsTx
  cases hactivity : x.activity with
  | committing autocommit answer => simp [hactivity] at hat
  | rollingBack reply => simp [hactivity] at hat
  | _ => rfl

end Session

namespace Database

variable {db : Database} {s : SessionId} {m : Move} {x z : Session} {moves : List Move}

/-- The session has a transaction open from here on, after each of the moves. -/
def StaysOpen (db : Database) (s : SessionId) : List Move → Prop
  | [] => (db.coordinator.tx s).isOpen = true
  | m :: rest => (db.coordinator.tx s).isOpen = true ∧ (db.perform m).StaysOpen s rest

instance instDecidableStaysOpen (db : Database) (s : SessionId) : (moves : List Move) →
    Decidable (db.StaysOpen s moves)
  | [] => inferInstanceAs (Decidable ((db.coordinator.tx s).isOpen = true))
  | m :: rest =>
    have := instDecidableStaysOpen (db.perform m) s rest
    inferInstanceAs (Decidable ((db.coordinator.tx s).isOpen = true ∧
      (db.perform m).StaysOpen s rest))

/-- In read-only mode nothing is in the log of the session, and no statement that writes is worked
on. -/
structure OnlyReads (db : Database) (s : SessionId) : Prop where
  actions : (db.coordinator.tx s).readOnly = true → (db.coordinator.tx s).actions = []
  statement : ∀ x, db.sessions.get? s = some x → x.AtStatement →
    (db.coordinator.tx s).readOnly = true → x.statement.request.writes.isEmpty = true

/-- What a session does in read-only mode, and when it has no transaction open. -/
theorem OnlyReads.leavesRows (hr : db.OnlyReads s) (h : db.Standing) (hm : m.mover? = some s)
    (hmode : (db.coordinator.tx s).isOpen = false ∨ (db.coordinator.tx s).readOnly = true) :
    LeavesRows s db.coordinator (db.perform m).coordinator := by
  have hnone : (db.coordinator.tx s).actions = [] := by
    rcases hmode with hclosed | hmode
    · exact h.actions_of_closed hclosed
    · exact hr.actions hmode
  have hdoes := db.does_of_mover hm
  generalize db.observe m = e, (db.perform m).coordinator = c' at hdoes
  cases hdoes with
  | nothing => exact leavesRows_refl hnone
  | @step x hx =>
    have hstands := (h.placed s x hx).stands
    refine leavesRows_step hstands hnone fun hin => ?_
    rcases hmode with hclosed | hmode
    · have hopen := (hstands.of_inside hin).2.2
      rw [hclosed] at hopen
      cases hopen
    · exact hr.statement x hx (.inr hin) hmode
  | call hx hidle hk => exact leavesRows_call hnone _

/-- The access mode of a transaction stays as it is. -/
theorem Standing.readOnly_perform (h : db.Standing) (hopen : (db.coordinator.tx s).isOpen = true)
    (hstill : ((db.perform m).coordinator.tx s).isOpen = true) :
    ((db.perform m).coordinator.tx s).readOnly = (db.coordinator.tx s).readOnly := by
  by_cases hm : m.mover? = some s
  · have hdoes := db.does_of_mover hm
    generalize db.observe m = e, (db.perform m).coordinator = c' at hdoes hstill
    cases hdoes with
    | nothing => rfl
    | @step x hx =>
      cases hends : x.endsTx s db.coordinator with
      | true =>
        rw [(restores_step hends).isOpen] at hstill
        cases hstill
      | false => exact congrArg Choices.readOnly (choices_step hends)
    | call hx hidle hk => exact readOnly_call hopen hstill
  · rcases h.tx_of_other hm with ⟨signals, htx⟩ | ⟨-, level, htx⟩
    · rw [htx]
    · rw [htx] at hstill
      cases hstill

/-- A session at a statement stays there until its next step. -/
theorem Standing.atStatement_aside (h : db.Standing) (hx : db.sessions.get? s = some x)
    (hbusy : x.isIdle = false) (hm : m ≠ .advance s) (hz : (db.perform m).sessions.get? s = some z)
    (hat : z.AtStatement) : x.AtStatement ∧ z.statement = x.statement ∧
      ((db.perform m).coordinator.tx s).readOnly = (db.coordinator.tx s).readOnly := by
  obtain ⟨signals, htx⟩ := h.tx_aside hx hbusy hm
  rw [htx]
  rcases h.get?_aside hx hbusy hm hz with rfl | ⟨hwaits, rfl⟩
  · exact ⟨hat, rfl, rfl⟩
  · refine ⟨.inl ?_, rfl, rfl⟩
    unfold isWaiting at hwaits
    unfold phase
    split at hwaits
    next hactivity => rw [hactivity]
    next => cases hwaits

theorem OnlyReads.statement_perform (hr : db.OnlyReads s) (h : db.Standing)
    (hz : (db.perform m).sessions.get? s = some z) (hat : z.AtStatement)
    (hmode : ((db.perform m).coordinator.tx s).readOnly = true) :
    z.statement.request.writes.isEmpty = true := by
  rcases h.becomes hz with ⟨x, hx, hbecomes⟩ | ⟨-, rfl⟩
  · by_cases hm : m = .advance s
    · subst hm
      rw [get?_advance hx] at hz
      obtain rfl := Option.some.inj hz
      obtain ⟨hbefore, hsame⟩ := atStatement_step hat
      have hkept : ((x.step s db.coordinator).2.tx s).choices = (db.coordinator.tx s).choices :=
        choices_step (endsTx_of_atStatement hbefore)
      rw [perform_advance hx] at hmode
      rw [hsame]
      exact hr.statement x hx hbefore ((congrArg Choices.readOnly hkept).symm.trans hmode)
    · cases hidle : x.isIdle with
      | false =>
        obtain ⟨hbefore, hsame, hkept⟩ := h.atStatement_aside hx hidle hm hz hat
        rw [hsame]
        exact hr.statement x hx hbefore (hkept.symm.trans hmode)
      | true =>
        have hout : x.phase = .elsewhere := by simp [phase, activity_of_isIdle hidle]
        cases hbecomes with
        | same => exact absurd hat (not_atStatement hout)
        | expired hwaits => simp [isWaiting, activity_of_isIdle hidle] at hwaits
        | stepped => exact absurd (atStatement_step hat).1 (not_atStatement hout)
        | called heq _ =>
          subst heq
          rw [perform_call hx hidle] at hmode
          obtain ⟨hkept, hempty⟩ := atStatement_call hat
          dsimp only at hmode
          rw [hkept] at hmode
          exact hempty hmode
  · exact absurd hat (not_atStatement rfl)

theorem OnlyReads.actions_perform (hr : db.OnlyReads s) (h : db.Standing)
    (hmode : ((db.perform m).coordinator.tx s).readOnly = true) :
    ((db.perform m).coordinator.tx s).actions = [] := by
  cases hstill : ((db.perform m).coordinator.tx s).isOpen with
  | false => exact (h.perform m).actions_of_closed hstill
  | true =>
    have hbefore : (db.coordinator.tx s).isOpen = false ∨ (db.coordinator.tx s).readOnly = true := by
      cases hopen : (db.coordinator.tx s).isOpen with
      | false => exact .inl rfl
      | true => exact .inr ((h.readOnly_perform hopen hstill).symm.trans hmode)
    by_cases hm : m.mover? = some s
    · exact (hr.leavesRows h hm hbefore).actions
    · rw [h.actions_of_other hm]
      rcases hbefore with hclosed | hmode
      · exact h.actions_of_closed hclosed
      · exact hr.actions hmode

theorem OnlyReads.run (hr : db.OnlyReads s) (h : db.Standing) (moves : List Move) :
    (db.run moves).OnlyReads s := by
  induction moves generalizing db with
  | nil => exact hr
  | cons m rest ih =>
    exact ih ⟨hr.actions_perform h, fun z hz hat => hr.statement_perform h hz hat⟩ (h.perform m)

theorem onlyReads_openWith {settings : Settings} {journal : Journal}
    (hopen : openWith? settings journal = .ok db) : db.Standing ∧ db.OnlyReads s := by
  rw [openWith?_eq hopen]
  exact ⟨standing_fresh settings journal, fun _ => rfl, fun _ hx => nomatch hx⟩

/-- A transaction keeps the access mode in which it was opened. -/
theorem Standing.readOnly_run (h : db.Standing) (hstays : db.StaysOpen s moves) :
    ((db.run moves).coordinator.tx s).isOpen = true ∧
      ((db.run moves).coordinator.tx s).readOnly = (db.coordinator.tx s).readOnly := by
  induction moves generalizing db with
  | nil => exact ⟨hstays, rfl⟩
  | cons m rest ih =>
    obtain ⟨hopen, hrest⟩ := hstays
    have hstill : ((db.perform m).coordinator.tx s).isOpen = true := by
      cases rest with
      | nil => exact hrest
      | cons n rest => exact hrest.1
    obtain ⟨hlast, hmode⟩ := ih (h.perform m) hrest
    exact ⟨hlast, hmode.trans (h.readOnly_perform hopen hstill)⟩

/-- What opens a transaction is a move of its session, which leaves the access mode as it is. -/
theorem Standing.opened (h : db.Standing) (hclosed : (db.coordinator.tx s).isOpen = false)
    (hopens : ((db.perform m).coordinator.tx s).isOpen = true) :
    m.mover? = some s ∧ ((db.perform m).coordinator.tx s).readOnly = (db.coordinator.tx s).readOnly := by
  have hmover : m.mover? = some s := by
    by_contra hm
    rcases h.tx_of_other hm with ⟨signals, htx⟩ | ⟨-, level, htx⟩
    · rw [htx, hclosed] at hopens
      cases hopens
    · rw [htx] at hopens
      cases hopens
  obtain ⟨x, hx⟩ : ∃ x, db.sessions.get? s = some x := by
    have hdoes := db.does_of_mover hmover
    generalize db.observe m = e, (db.perform m).coordinator = c' at hdoes hopens
    cases hdoes with
    | nothing =>
      rw [hclosed] at hopens
      cases hopens
    | step hx => exact ⟨_, hx⟩
    | call hx => exact ⟨_, hx⟩
  obtain ⟨hsets, hrestores⟩ := opening_leaves hclosed hopens
  have hlast := h.chosen_perform (a := .access) hclosed (h.known s x hx) hsets
  rw [hrestores] at hlast
  exact ⟨hmover, congrArg Prod.fst hlast⟩

/-- A transaction that is opened in read-only mode writes nothing until it has ended, whatever else
happens and whatever mode is chosen for later transactions: its log stays empty, and none of the moves
of its session changes the tables or calls a store, neither the one that opens it nor the one that
ends it. -/
theorem read_only_never_writes {settings : Settings} {journal : Journal}
    (hopen : openWith? settings journal = .ok db) (before during : List Move) (opening : Move)
    (hmode : ((db.run before).coordinator.tx s).readOnly = true)
    (hclosed : ((db.run before).coordinator.tx s).isOpen = false)
    (hstays : (db.run (before ++ [opening])).StaysOpen s during) :
    (db.run (before ++ [opening])).coordinator.storage = (db.run before).coordinator.storage ∧
    ((db.run (before ++ [opening] ++ during)).coordinator.tx s).readOnly = true ∧
    ((db.run (before ++ [opening] ++ during)).coordinator.tx s).actions = [] ∧
    ∀ m, m.mover? = some s → (db.run (before ++ [opening] ++ during ++ [m])).coordinator.storage =
      (db.run (before ++ [opening] ++ during)).coordinator.storage := by
  obtain ⟨hfresh, hreads⟩ := onlyReads_openWith (s := s) hopen
  have hstanding := hfresh.run before
  have hopened : ((db.run (before ++ [opening])).coordinator.tx s).isOpen = true := by
    cases during with
    | nil => exact hstays
    | cons n rest => exact hstays.1
  have hbegin : db.run (before ++ [opening]) = (db.run before).perform opening := run_append
  rw [hbegin] at hopened hstays
  obtain ⟨hmover, hsame⟩ := hstanding.opened hclosed hopened
  have hafter : ((db.run before).perform opening).Standing := hstanding.perform opening
  obtain ⟨hstill, hkept⟩ := hafter.readOnly_run hstays
  have hall : db.run (before ++ [opening] ++ during) = ((db.run before).perform opening).run during := by
    rw [run_append, hbegin]
  have hlater : (db.run (before ++ [opening] ++ during)).OnlyReads s := hreads.run hfresh _
  have hreadOnly : ((db.run (before ++ [opening] ++ during)).coordinator.tx s).readOnly = true := by
    rw [hall, hkept, hsame, hmode]
  refine ⟨?_, hreadOnly, hlater.actions hreadOnly, fun m hm => ?_⟩
  · rw [hbegin]
    exact ((hreads.run hfresh before).leavesRows hstanding hmover (.inl hclosed)).storage
  · have hlast : db.run (before ++ [opening] ++ during ++ [m]) =
        (db.run (before ++ [opening] ++ during)).perform m := run_append
    rw [hlast]
    exact (hlater.leavesRows (hfresh.run _) hm (.inr hreadOnly)).storage

/-- Session 1 chooses read-only mode, and that each statement does not end its transaction. -/
def chooseReadOnly : List Move :=
  [.createTable "t" false, .connect, .call 1 (.setAutocommit false), .call 1 (.setReadOnly true)]

/-- The session lets later transactions write, tries to insert a row, and reads the table twice. -/
def insertAndRead : List Move :=
  [.call 1 (.setReadOnlyDefault false),
    .call 1 (.execute ⟨.write [1], fun _ => .insert 1 [] fun _ => .done ⟨1, []⟩⟩),
    .call 1 (.savepoint "a"),
    .call 1 (.execute ⟨.read [1], fun n => .scan 1 fun _ =>
      if n = 1 then .requestRedo (.done ⟨0, []⟩) else .done ⟨0, []⟩⟩)] ++
  List.replicate 14 (.advance 1) ++ [.call 1 .rollback]

theorem read_only_never_writes_insertAndRead : ∃ db, openWith? .default .empty = .ok db ∧
    ((db.run chooseReadOnly).coordinator.tx 1).readOnly = true ∧
    ((db.run chooseReadOnly).coordinator.tx 1).isOpen = false ∧
    (db.run (chooseReadOnly ++ [.call 1 .begin])).StaysOpen 1 insertAndRead ∧
    ((db.run (chooseReadOnly ++ [.call 1 .begin] ++ insertAndRead)).coordinator.tx 1).actions = [] ∧
    ((db.run (chooseReadOnly ++ [.call 1 .begin] ++ insertAndRead)).coordinator.tx 1).readOnlyDefault =
      false ∧
    ((db.run (chooseReadOnly ++ [.call 1 .begin] ++ insertAndRead ++ [.advance 1])).coordinator.tx
      1).isOpen = false ∧
    (db.run (chooseReadOnly ++ [.call 1 .begin] ++ insertAndRead ++ [.advance 1])).coordinator.storage =
      (db.run (chooseReadOnly ++ [.call 1 .begin] ++ insertAndRead)).coordinator.storage := by
  obtain ⟨db, hopen⟩ : ∃ db, openWith? .default .empty = .ok db := ⟨_, rfl⟩
  have hdb := openWith?_eq hopen
  have hmode : ((db.run chooseReadOnly).coordinator.tx 1).readOnly = true := by
    rw [hdb]
    decide
  have hclosed : ((db.run chooseReadOnly).coordinator.tx 1).isOpen = false := by
    rw [hdb]
    decide
  have hstays : (db.run (chooseReadOnly ++ [.call 1 .begin])).StaysOpen 1 insertAndRead := by
    rw [hdb]
    decide
  obtain ⟨-, -, hactions, hlast⟩ :=
    read_only_never_writes hopen chooseReadOnly insertAndRead (.call 1 .begin) hmode hclosed hstays
  exact ⟨db, hopen, hmode, hclosed, hstays, hactions, by rw [hdb]; decide, by rw [hdb]; decide,
    hlast (.advance 1) rfl⟩

end Database

end LockingDb
