import LockingDb.Proofs.SessionSteps

namespace LockingDb

/-- The entries that say what a transaction has done. -/
def LogRecord.isWork : LogRecord → Bool
  | .insert _ _ _ _ | .delete _ _ _ | .commit _ _ => true
  | .statement _ _ | .checkpoint => false

/-- The log without statements and checkpoints. -/
def Journal.entries (j : Journal) : List LogRecord := j.records.filter (·.isWork)

/-- What a session state says about the changes of the transaction and its savepoints. -/
def SessionTx.work (tx : SessionTx) : List RowAction × IdMap (List Nat) × List Savepoint :=
  (tx.actions, tx.rowIndex, tx.savepoints)

theorem SessionTx.work_of_unlatched {tx tx' : SessionTx} (h : tx'.unlatched = tx.unlatched) :
    tx'.work = tx.work := by
  have hsame : tx'.unlatched.work = tx.unlatched.work := congrArg work h
  exact hsame

/-- A write to the log adds at most an entry at its end, and does not change which calls fail. -/
theorem Journal.entries_write {j : Journal} {call : LogCall} :
    (j.write call).2.faults = j.faults ∧ (j.write call).2.entries =
      j.entries ++ if (j.write call).1.isOk then call.record?.toList.filter (·.isWork) else [] := by
  unfold write entries
  dsimp only
  cases j.faults j.calls call with
  | none => exact ⟨rfl, List.filter_append ..⟩
  | some f => exact ⟨rfl, (List.append_nil _).symm⟩

theorem Journal.entries_write_of_quiet {j : Journal} {call : LogCall}
    (hquiet : ∀ r ∈ call.record?, r.isWork = false) :
    (j.write call).2.faults = j.faults ∧ (j.write call).2.entries = j.entries := by
  have hwrite : (j.write call).2.faults = j.faults ∧ (j.write call).2.entries = j.entries ++
      if (j.write call).1.isOk then call.record?.toList.filter (·.isWork) else [] := entries_write
  obtain ⟨hfaults, hentries⟩ := hwrite
  have hnone : call.record?.toList.filter (·.isWork) = [] := by
    refine List.filter_eq_nil_iff.mpr fun r hr => ?_
    rw [hquiet r (Option.mem_toList.mp hr)]
    exact Bool.false_ne_true
  refine ⟨hfaults, ?_⟩
  rw [hentries, hnone, ite_self, List.append_nil]

namespace Coordinator

variable {c c' c₂ : Coordinator} {s x : SessionId} {r : LockRequest} {now : Timestamp}
  {answer : Except Failure LockAnswer}

/-- The tables, the log, and the calls that sessions have made on the tables. -/
def data (c : Coordinator) : Storage × Journal × List TracedCall := (c.storage, c.journal, c.trace)

theorem journal_of_data (hdata : c'.data = c.data) : c'.journal = c.journal :=
  congrArg (fun d : Storage × Journal × List TracedCall => d.2.1) hdata

theorem trace_of_data (hdata : c'.data = c.data) : c'.trace = c.trace :=
  congrArg (fun d : Storage × Journal × List TracedCall => d.2.2) hdata

theorem wake_data : (c.wake s).data = c.data := by
  unfold wake
  split <;> rfl

theorem promote_data : c.promote.data = c.data :=
  List.foldlRecOn (motive := fun c' : Coordinator => c'.data = c.data) _ _ rfl
    fun _ hc _ _ => wake_data.trans hc

theorem withdraw_data : (c.withdraw s).data = c.data := by
  unfold withdraw
  dsimp only
  split
  next => exact promote_data
  next => rfl

theorem releaseLocks_data : (c.releaseLocks s).data = c.data := by
  unfold releaseLocks
  dsimp only
  split
  next => exact promote_data
  next => rfl

theorem endTx_data {rows : List RowId} : (c.endTx s rows).data = c.data := by
  refine releaseLocks_data.trans ?_
  split <;> rfl

theorem storage_endTx {rows : List RowId} : (c.endTx s rows).storage = c.storage :=
  congrArg Prod.fst endTx_data

theorem storage_closed {rows : List RowId} :
    ((c.endTx s rows).closeTx s now).storage = c.storage := storage_endTx

theorem dropReads_data {tables : List TableId} : (c.dropReads s tables).data = c.data := by
  unfold dropReads
  dsimp only
  split
  next => exact promote_data
  next => rfl

/-- The transaction of a session stays open, and keeps the locks of the tables it may write. -/
structure Upholds (s : SessionId) (c c' : Coordinator) : Prop where
  isOpen : (c.tx s).isOpen = true → (c'.tx s).isOpen = true
  written : ∀ t, c.locks.mode? s t = some .exclusive → c'.locks.mode? s t = some .exclusive

theorem Upholds.refl (s : SessionId) (c : Coordinator) : Upholds s c c := ⟨id, fun _ => id⟩

theorem Upholds.trans (h : Upholds s c c') (h₂ : Upholds s c' c₂) : Upholds s c c₂ :=
  ⟨fun ho => h₂.isOpen (h.isOpen ho), fun t ht => h₂.written t (h.written t ht)⟩

theorem upholds_of_continues (htx : (c.tx s).Continues (c'.tx s)) (hlocks : c'.locks = c.locks) :
    Upholds s c c' := ⟨htx.isOpen, fun _ => hlocks ▸ id⟩

theorem Spares.upholds (h : Spares x c c') : Upholds x c c' :=
  ⟨(SessionTx.continues_of_unlatched h.tx).isOpen, h.keeps.written⟩

/-- A call of a session that leaves its work alone: the rows, the log, the changes of its
transaction and their locks. -/
structure Quiet (s : SessionId) (c c' : Coordinator) : Prop extends Upholds s c c' where
  storage : c'.storage = c.storage
  trace : c'.trace = c.trace
  entries : c'.journal.entries = c.journal.entries
  faults : c'.journal.faults = c.journal.faults
  work : (c'.tx s).work = (c.tx s).work

theorem Quiet.refl (s : SessionId) (c : Coordinator) : Quiet s c c :=
  ⟨.refl s c, rfl, rfl, rfl, rfl, rfl⟩

theorem Quiet.trans (h : Quiet s c c') (h₂ : Quiet s c' c₂) : Quiet s c c₂ where
  toUpholds := h.toUpholds.trans h₂.toUpholds
  storage := h₂.storage.trans h.storage
  trace := h₂.trace.trans h.trace
  entries := h₂.entries.trans h.entries
  faults := h₂.faults.trans h.faults
  work := h₂.work.trans h.work

theorem quiet_of_data (hdata : c'.data = c.data) (hwork : (c'.tx s).work = (c.tx s).work)
    (hopen : (c.tx s).isOpen = true → (c'.tx s).isOpen = true)
    (hwritten : ∀ t, c.locks.mode? s t = some .exclusive → c'.locks.mode? s t = some .exclusive) :
    Quiet s c c' where
  storage := congrArg Prod.fst hdata
  trace := trace_of_data hdata
  entries := congrArg Journal.entries (journal_of_data hdata)
  faults := congrArg Journal.faults (journal_of_data hdata)
  work := hwork
  isOpen := hopen
  written := hwritten

theorem quiet_of_unlatched (hdata : c'.data = c.data)
    (htx : (c'.tx s).unlatched = (c.tx s).unlatched)
    (hwritten : ∀ t, c.locks.mode? s t = some .exclusive → c'.locks.mode? s t = some .exclusive) :
    Quiet s c c' :=
  quiet_of_data hdata (SessionTx.work_of_unlatched htx)
    (SessionTx.continues_of_unlatched htx).isOpen hwritten

theorem quiet_of_eq (hdata : c'.data = c.data) (htx : c'.tx s = c.tx s)
    (hlocks : c'.locks = c.locks) : Quiet s c c' :=
  quiet_of_unlatched hdata (congrArg _ htx) fun _ => hlocks ▸ id

theorem quiet_setTx {tx : SessionTx} (hwork : tx.work = (c.tx s).work)
    (hopen : (c.tx s).isOpen = true → tx.isOpen = true) : Quiet s c (c.setTx s tx) := by
  have htx : (c.setTx s tx).tx s = tx := tx_setTx_self
  refine quiet_of_data rfl ?_ ?_ fun _ => id
  · rw [htx, hwork]
  · rw [htx]
    exact hopen

theorem quiet_signal {f : Signals → Signals} : Quiet s c (c.signal s f) := quiet_setTx rfl id

theorem quiet_tick : Quiet s c c.tick.2 := quiet_of_eq rfl rfl rfl

theorem quiet_withdraw : Quiet s c (c.withdraw s) :=
  quiet_of_unlatched withdraw_data unlatched_withdraw keeps_withdraw.written

theorem quiet_dropReads {tables : List TableId} : Quiet s c (c.dropReads s tables) := by
  refine quiet_of_unlatched dropReads_data unlatched_dropReads fun t ht => ?_
  have hleft : (c.locks.releaseShared s tables).2.mode? s t = some .exclusive := by
    rw [LockTable.mode?_releaseShared, if_neg]
    · exact ht
    · rintro ⟨-, -, hshared⟩
      rw [ht] at hshared
      cases hshared
  unfold dropReads
  dsimp only
  split
  next => exact keeps_promote.written t hleft
  next => exact hleft

theorem quiet_endStatement : Quiet s c (c.endStatement s) := by
  have hclear : Quiet s c (c.setTx s { c.tx s with request := none }) := quiet_setTx rfl id
  unfold endStatement
  dsimp only
  split
  next => exact hclear
  next =>
    split
    next => exact hclear
    next r _ =>
      split
      next => exact hclear
      next =>
        have hdropped : Quiet s c ((c.setTx s { c.tx s with request := none }).dropReads s
          r.reads.toList) := hclear.trans quiet_dropReads
        exact hdropped.trans (quiet_setTx rfl id)

theorem quiet_completeStatement : Quiet s c (c.completeStatement s) := by
  have hstart : Quiet s c
      (c.updateTx s fun tx => { tx with statementStart := tx.actions.length }) := quiet_setTx rfl id
  exact hstart.trans quiet_endStatement

theorem quiet_openTx : Quiet s c (c.openTx s now) := by
  have hcount : Quiet s c { c with openCount := c.openCount + 1 } := quiet_of_eq rfl rfl rfl
  exact hcount.trans (quiet_setTx rfl fun _ => rfl)

theorem quiet_beginTransaction : Quiet s c (c.beginTransaction s) := by
  unfold beginTransaction
  split
  next => exact .refl s c
  next => exact quiet_tick.trans quiet_openTx

theorem quiet_resumeStatement : Quiet s c (c.resumeStatement s).2 := by
  unfold resumeStatement
  split
  next => exact .refl s c
  next =>
    dsimp only
    split
    next => exact quiet_tick.trans (quiet_setTx rfl id)
    next => exact quiet_tick.trans quiet_openTx

theorem quiet_cancelWait : Quiet s c (c.cancelWait s) := quiet_withdraw.trans quiet_signal

theorem quiet_prepare : Quiet s c (c.prepare s).2 := by
  unfold prepare
  split
  next => exact .refl s c
  next => exact quiet_tick.trans (quiet_setTx rfl id)

theorem quiet_noteStatement {sql : String} : Quiet s c (c.noteStatement s sql) := by
  have hquiet : ∀ r ∈ (LogCall.statement s sql).record?, r.isWork = false := by
    intro r hr
    cases hr
    rfl
  obtain ⟨hfaults, hentries⟩ := Journal.entries_write_of_quiet (j := c.journal) hquiet
  exact ⟨⟨id, fun _ => id⟩, rfl, rfl, hentries, hfaults, rfl⟩

theorem quiet_noted : Quiet s c (c.noted s r) := quiet_setTx rfl id

theorem Begins.quiet (hb : Begins c s r answer c') : Quiet s c c' := by
  have hlocks (h : LockTable.Keeps s c.locks (c.locks.acquire s r).2) :
      Quiet s c { c.noted s r with locks := (c.locks.acquire s r).2 } :=
    quiet_noted.trans (quiet_of_unlatched rfl rfl h.written)
  cases hb with
  | aborted habort => exact quiet_noted
  | again habort hgranted => exact quiet_noted
  | granted habort hv => exact (hlocks LockTable.keeps_acquire).trans (quiet_setTx rfl id)
  | waits habort hv => exact (hlocks LockTable.keeps_acquire).trans quiet_signal
  | refused habort hv =>
    refine (hlocks LockTable.keeps_acquire).trans (Quiet.trans ?_ quiet_signal)
    exact quiet_of_unlatched promote_data unlatched_promote keeps_promote.written

/-- A statement that may go on has noted where its changes start. -/
theorem Begins.statementStart (hb : Begins c s r (.ok .proceed) c') :
    (c'.tx s).statementStart = (c.tx s).actions.length := by
  have hnoted : ((c.noted s r).tx s).statementStart = (c.tx s).actions.length := by
    rw [noted, tx_updateTx_self]
  cases hb with
  | again habort hgranted => exact hnoted
  | granted habort hv =>
    rw [tx_updateTx_self]
    exact hnoted

end Coordinator

end LockingDb
