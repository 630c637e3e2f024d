import LockingDb.Proofs.LedgerSessionCalls
import LockingDb.Proofs.NoMissedGrant
import LockingDb.Proofs.Stances

namespace LockingDb

namespace Coordinator

variable {c c' c₂ : Coordinator} {s x : SessionId} {r : LockRequest} {t : TableId}

/-- A call that works on rows, of tables that the session has for itself. -/
structure Handles (s : SessionId) (c c' : Coordinator) : Prop extends Unmoved s c c' where
  books : Books s c c'
  guarded : c.storage.Adds (c.Guarded s) c'.storage
  traces : Traces s (c.Guarded s) c c'

theorem Handles.refl (s : SessionId) (c : Coordinator) : Handles s c c :=
  ⟨.refl s c, .refl s c, Storage.adds_of_eq rfl, traces_of_eq rfl rfl⟩

theorem guarded_congr (h : c'.locks = c.locks) : c'.Guarded s = c.Guarded s := by
  funext k
  rw [Guarded, h, Guarded]

theorem Handles.trans (h : Handles s c c') (h₂ : Handles s c' c₂) : Handles s c c₂ := by
  have hguarded := h₂.guarded
  have htraces := h₂.traces
  rw [guarded_congr h.locks] at hguarded htraces
  exact ⟨h.toUnmoved.trans h₂.toUnmoved, h.books.trans h₂.books, h.guarded.trans hguarded,
    h.traces.trans h.locks htraces⟩

theorem handles_insertRow {values : List Value} (hmode : c.locks.mode? s t = some .exclusive)
    (hopen : (c.tx s).isOpen = true) : Handles s c (c.insertRow s t t values).2 := by
  have hnew : c.storage.Adds (c.Guarded s) (c.storage.newRow t values).2 := Storage.newRow_adds
  have hcalls : (c.storage.newRow t values).2.calls = c.storage.calls := Storage.calls_newRow
  unfold insertRow
  generalize c.storage.newRow t values = allotted at hnew hcalls
  obtain ⟨outcome, storage⟩ := allotted
  have hstored : Handles s c { c with storage } :=
    ⟨unmoved_storage, books_storage, hnew, traces_of_eq hcalls rfl⟩
  cases outcome with
  | error f => exact hstored
  | ok row =>
    have hrecord : Handles s { c with storage } ({ c with storage }.recordInsert s t row).2 :=
      ⟨unmoved_recordInsert, books_recordInsert hmode hopen, recordInsert_adds hmode,
        traces_recordInsert hmode⟩
    dsimp only
    generalize { c with storage }.recordInsert s t row = recorded at hrecord
    obtain ⟨answer, c₁⟩ := recorded
    cases answer <;> exact hstored.trans hrecord

theorem Executes.handles_insertInto (h : c.Executes s r) {values : List Value} :
    Handles s c (c.insertInto s r t values).2 := by
  unfold insertInto
  split
  next => exact .refl s c
  next hwritable =>
    have hmode := h.written (mem_writes_of_writable_ok hwritable)
    have hinserted : Handles s c (c.insertRow s t t values).2 := handles_insertRow hmode h.isOpen
    generalize c.insertRow s t t values = inserted at hinserted
    obtain ⟨answer, c₁⟩ := inserted
    cases answer <;> exact hinserted

theorem handles_recordDelete (hmode : c.locks.mode? s t = some .exclusive)
    (hopen : (c.tx s).isOpen = true) {row : Row} : Handles s c (c.recordDelete s t row).2 :=
  ⟨unmoved_recordDelete, books_recordDelete hmode hopen, recordDelete_adds hmode,
    traces_recordDelete hmode⟩

theorem Executes.handles_deleteAt (h : c.Executes s r) {position : RowPosition} :
    Handles s c (c.deleteAt s r t position).2 := by
  unfold deleteAt
  split
  next => exact .refl s c
  next hwritable =>
    split
    next => exact .refl s c
    next =>
      exact handles_recordDelete (h.written (mem_writes_of_writable_ok hwritable)) h.isOpen

theorem Booked.guards_undo (h : c.Booked s) :
    ∀ a ∈ (c.tx s).actions, ∀ r type, c.Guarded s (a.store, .rollback r type) :=
  fun a ha _ _ => h.written a ha

theorem Booked.handles_rollbackToIndex (h : c.Booked s) {i : Nat} :
    Handles s c (c.rollbackToIndex s i).2 :=
  ⟨unmoved_rollbackToIndex, books_rollbackToIndex, rollbackToIndex_adds h.guards_undo,
    traces_rollbackToIndex h.guards_undo⟩

theorem Booked.handles_rollbackToSavepoint (h : c.Booked s) {name : String} :
    Handles s c (c.rollbackToSavepoint s name).2 :=
  ⟨unmoved_rollbackToSavepoint, books_rollbackToSavepoint, rollbackToSavepoint_adds h.guards_undo,
    traces_rollbackToSavepoint h.guards_undo⟩

theorem handles_noteStatement {sql : String} : Handles s c (c.noteStatement s sql) :=
  ⟨unmoved_noteStatement, books_noteStatement, Storage.adds_of_eq rfl, traces_of_eq rfl rfl⟩

theorem handles_signal {f : Signals → Signals} : Handles s c (c.signal s f) :=
  ⟨unmoved_signal, books_signal, Storage.adds_of_eq rfl, traces_of_eq rfl rfl⟩

/-- A statement that goes on keeps its locks, and its transaction is open. -/
theorem Underway.resumeStatement (h : c.Underway s r) : (c.resumeStatement s).2.Underway s r := by
  have hlocks : (c.resumeStatement s).2.locks = c.locks := resumeStatement_same.1
  obtain ⟨hnoted, hlevel⟩ : ((c.resumeStatement s).2.tx s).request = (c.tx s).request ∧
      ((c.resumeStatement s).2.tx s).isolation = (c.tx s).isolation := by
    unfold Coordinator.resumeStatement
    split
    next => exact ⟨rfl, rfl⟩
    next =>
      dsimp only
      split
      next =>
        rw [tx_updateTx_self]
        exact ⟨rfl, rfl⟩
      next =>
        rw [openTx, tx_updateTx_self]
        exact ⟨rfl, rfl⟩
  refine ⟨hlocks ▸ h.waits, hnoted.trans h.noted, fun hlow t ht => ?_⟩
  rw [ReadsHeld, hlevel] at hlow
  rw [hlocks] at ht
  exact h.reads hlow t ht

theorem Underway.rollbackStatement (h : c.Underway s r) (hsettled : c.locks.Settled)
    (hopen : (c.tx s).isOpen = true) : (c.rollbackStatement s).AtRest s := by
  have hundone : Unmoved s c (c.undoTo s (c.tx s).statementStart (c.tx s).actionAt).2 :=
    unmoved_undoTo
  have hunder := h.of_unmoved hundone
  have hgiven : ((c.undoTo s (c.tx s).statementStart (c.tx s).actionAt).2.releaseRows
      (c.undoTo s (c.tx s).statementStart (c.tx s).actionAt).1).Underway s r :=
    ⟨hunder.waits, hunder.noted, hunder.reads⟩
  exact hgiven.endStatement hsettled (hundone.isOpen.trans hopen)

theorem Underway.completeStatement (h : c.Underway s r) (hsettled : c.locks.Settled)
    (hopen : (c.tx s).isOpen = true) : (c.completeStatement s).AtRest s := by
  have hkept : Unmoved s c
      (c.updateTx s fun tx => { tx with statementStart := tx.actions.length }) := unmoved_setTx rfl
  exact (h.of_unmoved hkept).endStatement hsettled (hkept.isOpen.trans hopen)

/-- A statement is refused only with a serialization failure. -/
theorem Begins.refused_eq {f : Failure} (hb : Begins c s r (.error f) c') :
    f = .serializationFailure := by
  cases hb with
  | aborted habort => rfl
  | refused habort hv => rfl

theorem commit_of_abort (habort : c.abortRequested s = true) : c.commit s = (.ok false, c) := by
  unfold commit
  rw [if_pos habort]

/-- The transaction keeps its locks, the read locks at a level that holds them. -/
structure Holds (s : SessionId) (c c' : Coordinator) : Prop where
  written : ∀ t, c.locks.mode? s t = some .exclusive → c'.locks.mode? s t = some .exclusive
  read : c.ReadsHeld s → ∀ t, (c.locks.mode? s t).isSome = true →
    (c'.locks.mode? s t).isSome = true ∧ c'.ReadsHeld s

theorem Retains.holds (h : Retains s c c')
    (hwritten : ∀ t, c.locks.mode? s t = some .exclusive → c'.locks.mode? s t = some .exclusive) :
    Holds s c c' :=
  ⟨hwritten, fun hlevel t ht => ⟨(h.keeps hlevel).held t ht, h.readsHeld hlevel⟩⟩

theorem Holds.refl (s : SessionId) (c : Coordinator) : Holds s c c :=
  ⟨fun _ ht => ht, fun hlevel _ ht => ⟨ht, hlevel⟩⟩

theorem Spares.holds (h : Spares x c c') : Holds x c c' := h.retains.holds h.keeps.written

end Coordinator

open Coordinator

namespace Session

variable {s y : SessionId} {c c' : Coordinator} {x x' : Session} {e : Bool}

/-- What a session has and waits for, by where it is in its call. -/
def Stands (x : Session) (s : SessionId) (c : Coordinator) : Prop :=
  match x.activity with
  | .idle | .entering | .failed _ | .finished _ | .committing _ _ => c.AtRest s
  | .acquiring | .waiting | .timedOut => c.Asking s x.statement.request
  | .resuming => c.Underway s x.statement.request ∧ c.locks.holdsAll s x.statement.request = true
  | .running _ => c.Executes s x.statement.request
  | .deleting t _ _ _ => c.Executes s x.statement.request ∧ t ∈ x.statement.request.writes
  | .failing _ | .finishing _ => c.Underway s x.statement.request ∧ (c.tx s).isOpen = true
  | .rollingBack _ => True

/-- A session stands where its call has led it; a closed one is idle for ever. -/
structure Placed (x : Session) (s : SessionId) (c : Coordinator) : Prop where
  resting : x.closed = true → x.activity = .idle ∧ (c.tx s).isOpen = false
  stands : x.Stands s c

theorem placed_of_open (hopen : x.closed = false) (h : x.Stands s c) : x.Placed s c := by
  refine ⟨fun hclosed => ?_, h⟩
  rw [hopen] at hclosed
  cases hclosed

theorem Placed.of_spares (hx : x.Placed y c) (h : c.locks.Coherent) (hspares : Spares y c c') :
    x.Placed y c' := by
  refine ⟨fun hclosed => ?_, ?_⟩
  · obtain ⟨hidle, hrest⟩ := hx.resting hclosed
    exact ⟨hidle, hspares.isOpen.trans hrest⟩
  · have hstands := hx.stands
    unfold Stands at hstands ⊢
    split at hstands
    next => exact hstands.of_spares h hspares
    next => exact hstands.of_spares h hspares
    next => exact hstands.of_spares h hspares
    next => exact hstands.of_spares h hspares
    next => exact hstands.of_spares h hspares
    next => exact hstands.of_spares h hspares
    next => exact hstands.of_spares h hspares
    next => exact hstands.of_spares h hspares
    next => exact ⟨hstands.1.of_spares h hspares, hspares.keeps.holdsAll hstands.2⟩
    next => exact hstands.of_spares h hspares
    next => exact ⟨hstands.1.of_spares h hspares, hstands.2⟩
    next => exact ⟨hstands.1.of_spares h hspares, hspares.isOpen.trans hstands.2⟩
    next => exact ⟨hstands.1.of_spares h hspares, hspares.isOpen.trans hstands.2⟩
    next => trivial

/-- The next step of the session commits its transaction or takes it back. -/
def endsTx (x : Session) (s : SessionId) (c : Coordinator) : Bool :=
  match x.activity with
  | .committing _ _ => !c.abortRequested s
  | .rollingBack _ => true
  | _ => false

/-- The call takes the transaction of the session back at once. -/
def callEndsTx (x : Session) : SessionCall → Bool
  | .close => !x.closed
  | _ => false

/-- A move of a session; the flag says whether its transaction ends. -/
structure Moves (s : SessionId) (c : Coordinator) (e : Bool) (x' : Session) (c' : Coordinator) :
    Prop where
  others : ∀ y, y ≠ s → Spares y c c'
  settled : c'.locks.Settled
  covered : c'.Covered s
  books : Books s c c'
  placed : x'.Placed s c'
  last : LocksLast s (c.Guarded s) c c'
  holds : e = false → Holds s c c'

/-- What is known of a session when it moves. -/
structure Ready (x : Session) (s : SessionId) (c : Coordinator) : Prop where
  settled : c.locks.Settled
  covered : c.Covered s
  booked : c.Booked s
  placed : x.Placed s c

theorem Ready.moves (h : x.Ready s c) (hothers : ∀ y, y ≠ s → Spares y c c') (hp : Proceeds s c c')
    (hbooks : Books s c c')
    (hwritten : ∀ t, c.locks.mode? s t = some .exclusive → c'.locks.mode? s t = some .exclusive)
    (hlast : LocksLast s (c.Guarded s) c c') (hplaced : x'.Placed s c') :
    Moves s c e x' c' :=
  ⟨hothers, hp.settled h.settled, hp.covered h.covered, hbooks, hplaced, hlast,
    fun _ => hp.toRetains.holds hwritten⟩

theorem Ready.moves_quiet (h : x.Ready s c) (hothers : ∀ y, y ≠ s → Spares y c c')
    (hp : Proceeds s c c') (hbooks : Books s c c') (hq : Quiet s c c') (hplaced : x'.Placed s c') :
    Moves s c e x' c' :=
  h.moves hothers hp hbooks hq.written (.idle hq.storage hq.trace) hplaced

theorem Ready.moves_handles (h : x.Ready s c) (hothers : ∀ y, y ≠ s → Spares y c c')
    (hp : Proceeds s c c') (hh : Handles s c c') (hplaced : x'.Placed s c') : Moves s c e x' c' :=
  h.moves hothers hp hh.books hh.written (.works hh.locks hh.guarded hh.traces) hplaced

theorem Ready.stays (h : x.Ready s c) (hplaced : x'.Placed s c) : Moves s c e x' c :=
  h.moves_handles (fun _ _ => spares_of_eq rfl rfl rfl) (.refl s c) (.refl s c) hplaced

/-- Only an open session is in the middle of a call. -/
theorem Ready.open (h : x.Ready s c) (hbusy : x.activity ≠ .idle) : x.closed = false :=
  Bool.eq_false_iff.mpr fun hclosed => hbusy (h.placed.resting hclosed).1

theorem Ready.runBody_moves (h : x.Ready s c) (hopen : x.closed = false)
    (hruns : c.Executes s x.statement.request) (body : StatementBody) :
    Moves s c e (x.runBody s c body).1 (x.runBody s c body).2 := by
  have hstay {next : StatementBody} : (x.become (.running next)).Placed s c :=
    placed_of_open hopen hruns
  have hgoes {c' : Coordinator} {next : StatementBody} (hh : Handles s c c') :
      (x.become (.running next)).Placed s c' := placed_of_open hopen (hruns.of_unmoved hh.toUnmoved)
  cases body with
  | done result => exact h.stays (placed_of_open hopen ⟨hruns.toUnderway, hruns.isOpen⟩)
  | fail error => exact h.stays (placed_of_open hopen ⟨hruns.toUnderway, hruns.isOpen⟩)
  | sessionId next => exact h.stays hstay
  | requestRedo next =>
    exact h.moves_handles (fun _ hy => spares_signal hy) proceeds_requestRedo handles_signal
      (hgoes handles_signal)
  | raiseAbort next =>
    exact h.moves_handles (fun _ hy => spares_signal hy) proceeds_raiseAbort handles_signal
      (hgoes handles_signal)
  | scan table next => exact h.stays hstay
  | insert table values next =>
    have hh : Handles s c (c.insertInto s x.statement.request table values).2 :=
      hruns.handles_insertInto
    exact h.moves_handles (fun _ hy => spares_insertInto hy) proceeds_insertInto hh (hgoes hh)
  | delete table position next =>
    have hh : Handles s c (c.deleteAt s x.statement.request table position).2 :=
      hruns.handles_deleteAt
    exact h.moves_handles (fun _ hy => spares_deleteAt hy) proceeds_deleteAt hh (hgoes hh)
  | deleteWhere table test next =>
    dsimp only [runBody]
    split
    next => exact h.stays hstay
    next hdeletable =>
      have ht := mem_writes_of_writable (writable_of_deletable hdeletable)
      exact h.stays (placed_of_open hopen ⟨hruns, ht⟩)

theorem Ready.acquiring_moves (h : x.Ready s c) (hactivity : x.activity = .acquiring) :
    Moves s c e (x.step s c).1 (x.step s c).2 := by
  have hopen := h.open (by rw [hactivity]; nofun)
  have hasking := h.placed.stands
  simp only [Stands, hactivity] at hasking
  have hb := beginStatement_begins c s x.statement.request
  have hagain : c.AsksAgain s x.statement.request := fun n w hq => Or.inr (hasking.asks n w hq)
  obtain ⟨hafter, hgranted⟩ := hb.asking h.settled.toCoherent h.covered hasking
  have hquiet := hb.quiet
  have hmoves (x' : Session) (hplaced : x'.Placed s (c.beginStatement s x.statement.request).2) :
      Moves s c e x' (c.beginStatement s x.statement.request).2 :=
    ⟨fun y hy => spares_beginStatement hy, hb.settled h.settled hagain, hb.covered h.covered,
      hb.books, hplaced, .idle hquiet.storage hquiet.trace,
      fun _ => hb.retains.holds hquiet.written⟩
  simp only [step, hactivity]
  generalize c.beginStatement s x.statement.request = begun at hb hafter hgranted hmoves
  obtain ⟨answer, c₁⟩ := begun
  split
  next heq =>
    cases heq
    exact hmoves _ (placed_of_open hopen (hgranted rfl))
  next heq =>
    cases heq
    exact hmoves _ (placed_of_open hopen hafter)
  next heq =>
    cases heq
    exact hmoves _ (placed_of_open hopen trivial)
  next hother heq =>
    cases heq
    exact absurd hb.refused_eq hother

theorem Ready.resuming_moves (h : x.Ready s c) (hactivity : x.activity = .resuming) :
    Moves s c e (x.step s c).1 (x.step s c).2 := by
  have hopen := h.open (by rw [hactivity]; nofun)
  have hstands := h.placed.stands
  simp only [Stands, hactivity] at hstands
  obtain ⟨hunder, hholds⟩ := hstands
  have hresumed := hunder.resumeStatement
  have hlocks : (c.resumeStatement s).2.locks = c.locks := resumeStatement_same.1
  have hstarted : (c.resumeStatement s).1 = .ok () → ((c.resumeStatement s).2.tx s).isOpen = true :=
    isOpen_resumeStatement
  have hmoves (x' : Session) (hplaced : x'.Placed s (c.resumeStatement s).2) :
      Moves s c e x' (c.resumeStatement s).2 :=
    h.moves_quiet (fun _ hy => spares_resumeStatement hy) proceeds_resumeStatement
      books_resumeStatement quiet_resumeStatement hplaced
  simp only [step, hactivity]
  generalize c.resumeStatement s = resumed at hresumed hlocks hstarted hmoves
  obtain ⟨answer, c₁⟩ := resumed
  split
  next => exact h.stays (placed_of_open hopen trivial)
  next =>
    cases answer with
    | error f => exact hmoves _ (placed_of_open hopen trivial)
    | ok done =>
      have hruns : c₁.Executes s x.statement.request := ⟨hresumed, hlocks ▸ hholds, hstarted rfl⟩
      exact hmoves _ (placed_of_open hopen hruns)

theorem Ready.deleting_moves (h : x.Ready s c) {t : TableId} {rows : List Row} {count : Nat}
    {next : Except Failure Nat → StatementBody} (hactivity : x.activity = .deleting t rows count next) :
    Moves s c e (x.step s c).1 (x.step s c).2 := by
  have hopen := h.open (by rw [hactivity]; nofun)
  have hstands := h.placed.stands
  simp only [Stands, hactivity] at hstands
  obtain ⟨hruns, ht⟩ := hstands
  simp only [step, hactivity]
  cases rows with
  | nil => exact h.stays (placed_of_open hopen hruns)
  | cons row rows =>
    have hh : Handles s c (c.recordDelete s t row).2 :=
      handles_recordDelete (hruns.written ht) hruns.isOpen
    have hruns₁ := hruns.of_unmoved hh.toUnmoved
    have hmoves (x' : Session) (hplaced : x'.Placed s (c.recordDelete s t row).2) :
        Moves s c e x' (c.recordDelete s t row).2 :=
      h.moves_handles (fun _ hy => spares_recordDelete hy) proceeds_recordDelete hh hplaced
    dsimp only
    generalize c.recordDelete s t row = deleted at hruns₁ hmoves
    obtain ⟨answer, c₁⟩ := deleted
    cases answer with
    | error f => exact hmoves _ (placed_of_open hopen hruns₁)
    | ok done => exact hmoves _ (placed_of_open hopen ⟨hruns₁, ht⟩)

theorem Ready.failing_moves (h : x.Ready s c) {error : Failure}
    (hactivity : x.activity = .failing error) : Moves s c e (x.step s c).1 (x.step s c).2 := by
  have hopen := h.open (by rw [hactivity]; nofun)
  have hstands := h.placed.stands
  simp only [Stands, hactivity] at hstands
  simp only [step, hactivity]
  exact h.moves (fun _ hy => spares_rollbackStatement hy) proceeds_rollbackStatement
    books_rollbackStatement upholds_rollbackStatement.written
    (rollbackStatement_last h.booked.guards_undo)
    (placed_of_open hopen (hstands.1.rollbackStatement h.settled hstands.2))

theorem Ready.finishing_moves (h : x.Ready s c) {result : StatementResult}
    (hactivity : x.activity = .finishing result) : Moves s c e (x.step s c).1 (x.step s c).2 := by
  have hopen := h.open (by rw [hactivity]; nofun)
  have hstands := h.placed.stands
  simp only [Stands, hactivity] at hstands
  obtain ⟨hunder, htx⟩ := hstands
  have htaken : Proceeds s c (c.signal s fun _ => (c.tx s).signals.takeRedo.2) :=
    proceeds_updateTx ⟨rfl, id, rfl, id⟩
  have hsignalled : Handles s c (c.signal s fun _ => (c.tx s).signals.takeRedo.2) := handles_signal
  have hunder₁ := hunder.of_unmoved hsignalled.toUnmoved
  have hopen₁ := hsignalled.isOpen.trans htx
  have hbooked₁ := hsignalled.books.own h.booked
  have hothers (y : SessionId) (hy : y ≠ s) :
      Spares y c (c.signal s fun _ => (c.tx s).signals.takeRedo.2) := spares_signal hy
  have hdata : (c.signal s fun _ => (c.tx s).signals.takeRedo.2).data = c.data := rfl
  simp only [step, hactivity]
  generalize (c.signal s fun _ => (c.tx s).signals.takeRedo.2) = c₁ at *
  have hsettled₁ := htaken.settled h.settled
  split
  next =>
    have hundone : LocksLast s (c₁.Guarded s) c₁ (c₁.rollbackStatement s) :=
      rollbackStatement_last hbooked₁.guards_undo
    rw [guarded_congr hsignalled.locks] at hundone
    exact h.moves (fun y hy => (hothers y hy).trans (spares_rollbackStatement hy))
      (htaken.trans proceeds_rollbackStatement) (hsignalled.books.trans books_rollbackStatement)
      (fun t ht => upholds_rollbackStatement.written t (hsignalled.written t ht))
      (hundone.of_same hsignalled.locks (congrArg Prod.fst hdata) (trace_of_data hdata))
      (placed_of_open hopen (hunder₁.rollbackStatement hsettled₁ hopen₁))
  next =>
    have hquiet : Quiet s c₁ (c₁.completeStatement s) := quiet_completeStatement
    exact h.moves (fun y hy => (hothers y hy).trans (spares_completeStatement hy))
      (htaken.trans proceeds_completeStatement) (hsignalled.books.trans books_completeStatement)
      (fun t ht => hquiet.written t (hsignalled.written t ht))
      (.idle (hquiet.storage.trans (congrArg Prod.fst hdata)) (hquiet.trace.trans (trace_of_data hdata)))
      (placed_of_open hopen (hunder₁.completeStatement hsettled₁ hopen₁))

theorem Ready.committing_moves (h : x.Ready s c) {autocommit : Bool} {answer : Answer}
    (hactivity : x.activity = .committing autocommit answer) :
    Moves s c (!c.abortRequested s) (x.step s c).1 (x.step s c).2 := by
  have hopen := h.open (by simp [hactivity])
  obtain ⟨hfreed, hbooks⟩ := commit_books (s := s) h.settled.toCoherent
  have hrest (hanswer : (c.commit s).1 ≠ .ok false) : (c.commit s).2.AtRest s := by
    refine (hfreed h.booked (Bool.eq_false_iff.mpr fun habort => hanswer ?_)).atRest
    rw [commit_of_abort habort]
  have hholds (habort : (!c.abortRequested s) = false) : Holds s c (c.commit s).2 := by
    rw [commit_of_abort (by simpa using habort)]
    exact .refl s c
  have hmoves (x' : Session) (hplaced : x'.Placed s (c.commit s).2) :
      Moves s c (!c.abortRequested s) x' (c.commit s).2 :=
    ⟨fun y hy => spares_commit hy, steady_commit.settled h.settled, steady_commit.covered h.covered,
      hbooks, hplaced, commit_last fun a ha r type => ⟨h.booked.written a ha, h.booked.written a ha⟩,
      hholds⟩
  simp only [step, hactivity]
  generalize c.commit s = committed at hrest hmoves
  obtain ⟨outcome, c₁⟩ := committed
  split
  next heq =>
    cases heq
    exact hmoves _ (placed_of_open hopen (hrest (by simp)))
  next heq =>
    cases heq
    exact hmoves _ (placed_of_open hopen trivial)
  next heq =>
    cases heq
    exact hmoves _ (placed_of_open hopen (hrest (by simp)))

theorem Ready.rollingBack_moves (h : x.Ready s c) {reply : Reply}
    (hactivity : x.activity = .rollingBack reply) : Moves s c true (x.step s c).1 (x.step s c).2 := by
  have hopen := h.open (by simp [hactivity])
  obtain ⟨hfreed, hbooks⟩ := rollback_freed (s := s) h.settled.toCoherent
  have hplaced : (x.finish reply).Placed s (c.rollback s) :=
    placed_of_open (x := x.finish reply) hopen (hfreed h.booked).atRest
  simp only [step, hactivity]
  exact ⟨fun y hy => spares_rollback hy, steady_rollback.settled h.settled,
    steady_rollback.covered h.covered, hbooks, hplaced, rollback_last h.booked.guards_undo, Bool.noConfusion⟩

/-- A step takes a session where its call leads it. -/
theorem Ready.step_moves (h : x.Ready s c) :
    Moves s c (x.endsTx s c) (x.step s c).1 (x.step s c).2 := by
  have hstands := h.placed.stands
  have hopen (hbusy : x.activity ≠ .idle) := h.open hbusy
  unfold endsTx
  cases hactivity : x.activity with
  | idle =>
    simp only [step, hactivity]
    exact h.stays h.placed
  | entering =>
    simp only [Stands, hactivity] at hstands
    have hopen := hopen (by simp [hactivity])
    simp only [step, hactivity]
    split
    next => exact h.stays (placed_of_open hopen trivial)
    next => exact h.stays (placed_of_open hopen (hstands.asking h.settled.toCoherent))
  | acquiring => exact h.acquiring_moves hactivity
  | waiting =>
    simp only [Stands, hactivity] at hstands
    have hopen := hopen (by simp [hactivity])
    simp only [step, hactivity]
    split
    next => exact h.stays (placed_of_open hopen hstands)
    next => exact h.stays (placed_of_open hopen trivial)
    next => exact h.stays (placed_of_open hopen hstands)
    next => exact h.stays h.placed
  | timedOut =>
    have hopen := hopen (by simp [hactivity])
    simp only [step, hactivity]
    exact h.moves_quiet (fun _ hy => spares_cancelWait hy) proceeds_cancelWait books_cancelWait
      quiet_cancelWait (placed_of_open hopen trivial)
  | resuming => exact h.resuming_moves hactivity
  | running body =>
    simp only [Stands, hactivity] at hstands
    have hopen := hopen (by simp [hactivity])
    simp only [step, hactivity]
    exact h.runBody_moves hopen hstands body
  | deleting t rows count next => exact h.deleting_moves hactivity
  | failing error => exact h.failing_moves hactivity
  | failed error =>
    simp only [Stands, hactivity] at hstands
    have hopen := hopen (by simp [hactivity])
    simp only [step, hactivity]
    split
    next => exact h.stays (placed_of_open hopen trivial)
    next =>
      split
      next => exact h.stays (placed_of_open hopen trivial)
      next => exact h.stays (placed_of_open hopen hstands)
  | finishing result => exact h.finishing_moves hactivity
  | finished result =>
    simp only [Stands, hactivity] at hstands
    have hopen := hopen (by simp [hactivity])
    simp only [step, hactivity]
    split
    next => exact h.stays (placed_of_open hopen trivial)
    next => split <;> exact h.stays (placed_of_open hopen hstands)
  | committing autocommit answer => exact h.committing_moves hactivity
  | rollingBack reply => exact h.rollingBack_moves hactivity

end Session

end LockingDb
