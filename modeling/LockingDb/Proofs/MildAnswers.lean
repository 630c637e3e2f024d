import LockingDb.Proofs.StorePlaces
import LockingDb.Session

namespace LockingDb

/-- The failures that tell a client that its transaction is over. -/
def Failure.endsTransaction : Failure → Bool
  | .serializationFailure | .lockWaitTimeout | .fatalStore _ => true
  | _ => false

/-- If a body tells of an ended transaction, an operation has told it so before. -/
def StatementBody.Relays : StatementBody → (Failure → Prop) → Prop
  | .done _, _ => True
  | .fail error, seen => error.endsTransaction = true → seen error
  | .sessionId next, seen => ∀ s, (next s).Relays seen
  | .requestRedo next, seen => next.Relays seen
  | .raiseAbort next, seen => next.Relays seen
  | .scan _ next, seen => ∀ answer, (next answer).Relays fun f => seen f ∨ answer = .error f
  | .insert _ _ next, seen => ∀ answer, (next answer).Relays fun f => seen f ∨ answer = .error f
  | .delete _ _ next, seen => ∀ answer, (next answer).Relays fun f => seen f ∨ answer = .error f
  | .deleteWhere _ _ next, seen => ∀ answer, (next answer).Relays fun f => seen f ∨ answer = .error f

theorem StatementBody.Relays.mono {body : StatementBody} {seen known : Failure → Prop}
    (h : body.Relays seen) (hknown : ∀ f, f.endsTransaction = true → seen f → known f) :
    body.Relays known := by
  have hmore {α : Type} {seen known : Failure → Prop} {answer : Except Failure α}
      (hknown : ∀ f, f.endsTransaction = true → seen f → known f) (f : Failure)
      (hends : f.endsTransaction = true) (hf : seen f ∨ answer = .error f) :
      known f ∨ answer = .error f := hf.imp_left (hknown f hends)
  induction body generalizing seen known with
  | done result => trivial
  | fail error => exact fun hends => hknown error hends (h hends)
  | sessionId next ih => exact fun s => ih s (h s) hknown
  | requestRedo next ih => exact ih h hknown
  | raiseAbort next ih => exact ih h hknown
  | scan t next ih => exact fun answer => ih answer (h answer) (hmore hknown)
  | insert t values next ih => exact fun answer => ih answer (h answer) (hmore hknown)
  | delete t position next ih => exact fun answer => ih answer (h answer) (hmore hknown)
  | deleteWhere t test next ih => exact fun answer => ih answer (h answer) (hmore hknown)

/-- An answer that tells of no ended transaction, unless with a failure that is known. -/
def Mild {α : Type} (known : Failure → Prop) (answer : Except Failure α) : Prop :=
  ∀ f, answer = .error f → f.endsTransaction = true → known f

variable {known : Failure → Prop}

theorem mild_ok {α : Type} (a : α) : Mild known (.ok a) := nofun

theorem mild_error {α : Type} {f : Failure} (h : f.endsTransaction = false) :
    Mild known (.error f : Except Failure α) := by
  intro g hg hends
  cases hg
  rw [h] at hends
  cases hends

/-- A failure is passed on. -/
theorem Mild.passed {α β : Type} {answer : Except Failure α} {f : Failure} (h : Mild known answer)
    (heq : answer = .error f) : Mild known (.error f : Except Failure β) := by
  intro g hg
  cases hg
  exact h f heq

theorem Mild.map {α β : Type} {answer : Except Failure α} {f : α → β} (h : Mild known answer) :
    Mild known (answer.map f) := by
  cases answer with
  | error e => exact h.passed rfl
  | ok a => exact mild_ok _

/-- What a body tells that goes on with an answer, it has got from the operations before, or the
answer has told it. -/
theorem StatementBody.Relays.answered {α : Type} {body : StatementBody} {seen : Failure → Prop}
    {answer : Except Failure α} (h : body.Relays fun f => seen f ∨ answer = .error f)
    (hanswer : Mild known answer) : body.Relays fun f => seen f ∨ known f :=
  h.mono fun f hends hf => hf.imp_right fun heq => hanswer f heq hends

namespace Storage

variable {s s' s₁ : Storage} {t : TableId} {row : Row} {f : Failure}

/-- A table has failed to show or to hide a row. -/
def FailsWith (s s' : Storage) (f : Failure) : Prop :=
  ∃ t row, ∃ k ∈ [StoreCall.index row, .delete row],
    s.fault? s.calls.length (t, k) = some f ∧ s'.calls = (t, k) :: s.calls

theorem FailsWith.of_same (h : s₁.FailsWith s' f) (hcalls : s₁.calls = s.calls)
    (hfaults : ∀ n call, s₁.fault? n call = s.fault? n call) : s.FailsWith s' f := by
  obtain ⟨t, row, k, hk, hfault, hmade⟩ := h
  refine ⟨t, row, k, hk, ?_, ?_⟩
  · rw [← hfaults, ← hcalls]
    exact hfault
  · rw [← hcalls]
    exact hmade

theorem mild_table? : Mild known (s.table? t) := by
  unfold table?
  split
  next => exact mild_ok _
  next => exact mild_error rfl

theorem mild_newRow {values : List Value} : Mild known (s.newRow t values).1 := by
  have htable : Mild known (s.table? t) := mild_table?
  unfold newRow
  split
  next f heq => exact htable.passed heq
  next => exact mild_ok _

theorem mild_perform {store : RowStore} {k : StoreCall} : Mild known (store.perform k) := by
  have hindex (row : Row) : Mild known (store.indexRow row) := by
    unfold RowStore.indexRow
    split
    next => exact mild_ok _
    next => exact mild_error rfl
  cases k with
  | index row => exact hindex row
  | delete row =>
    dsimp only [RowStore.perform, RowStore.delete]
    split
    next => exact mild_ok _
    next => exact mild_error rfl
  | rollback row type => cases type <;> first | exact hindex row | exact mild_ok _
  | commit row type => cases type <;> exact mild_ok _

/-- A call fails mildly, unless a table is to fail it. -/
theorem mild_call {k : StoreCall} (hk : k ∈ [StoreCall.index row, .delete row]) :
    Mild (s.FailsWith (s.call t k).2) (s.call t k).1 := by
  intro f hanswer hends
  have hmild {α : Type} {answer : Except Failure α} (h : ∀ known, Mild known answer)
      (heq : answer = .error f) : False := h (fun _ => False) f heq hends
  unfold call at hanswer
  split at hanswer
  next g heq =>
    cases hanswer
    exact (hmild (fun _ => mild_table?) heq).elim
  next table htable =>
    dsimp only at hanswer
    split at hanswer
    next g hg =>
      cases hanswer
      have hget : s.tables.get? t = some table := by
        unfold table? at htable
        split at htable
        next found =>
          cases htable
          exact found
        next => cases htable
      have hfault : s.fault? s.calls.length (t, k) = some f := by
        unfold fault? faults?
        rw [hget]
        exact hg
      exact ⟨t, row, k, hk, hfault, calls_call (by rw [hget]; rfl)⟩
    next =>
      split at hanswer
      next g hg =>
        cases hanswer
        exact (hmild (fun _ => mild_perform) hg).elim
      next => cases hanswer

end Storage

namespace Coordinator

variable {c c' : Coordinator} {s : SessionId} {r : LockRequest} {t store : TableId} {row : Row}

theorem mild_readable : Mild known (c.readable r t) := by
  unfold readable
  split
  next => exact Storage.mild_table?.map
  next => exact mild_error rfl

theorem mild_writable : Mild known (c.writable r t) := by
  unfold writable
  split
  next => exact Storage.mild_table?.map
  next => exact mild_error rfl

theorem mild_scanTable : Mild known (c.scanTable r t) := by
  have hreadable : Mild known (c.readable r t) := mild_readable
  unfold scanTable
  split
  next f heq => exact hreadable.passed heq
  next => exact mild_ok _

theorem mild_check {o : RowOwnership} {id : RowId} : Mild known (o.check s id) := by
  unfold RowOwnership.check
  split
  next =>
    split
    next => exact mild_ok _
    next => exact mild_error rfl
  next => exact mild_ok _

theorem mild_checkAll {o : RowOwnership} {ids : List RowId} : Mild known (o.checkAll s ids) := by
  induction ids with
  | nil => exact mild_ok _
  | cons id ids ih =>
    have hcheck : Mild known (o.check s id) := mild_check
    unfold RowOwnership.checkAll
    split
    next => exact ih
    next f heq => exact hcheck.passed heq

theorem mild_deletable {test : Row → Bool} : Mild known (c.deletable s r t test) := by
  have hwritable : Mild known (c.writable r t) := mild_writable
  unfold deletable
  split
  next f heq => exact hwritable.passed heq
  next =>
    have hcheck : Mild known (c.checkDelete s ((c.storage.scan t).filter test)) := mild_checkAll
    dsimp only
    split
    next f heq => exact hcheck.passed heq
    next => exact mild_ok _

theorem mild_recordInsert :
    Mild (c.storage.FailsWith (c.recordInsert s store row).2.storage)
      (c.recordInsert s store row).1 := by
  have hcall : Mild (c.storage.FailsWith (c.storage.call store (.index row)).2)
      (c.storage.call store (.index row)).1 := Storage.mild_call List.mem_cons_self
  unfold recordInsert
  generalize c.storage.call store (.index row) = called at hcall
  obtain ⟨answer, storage⟩ := called
  cases answer with
  | error f => exact hcall
  | ok done => exact mild_ok _

theorem mild_recordDelete :
    Mild (c.storage.FailsWith (c.recordDelete s store row).2.storage)
      (c.recordDelete s store row).1 := by
  have hcheck {known : Failure → Prop} : Mild known (c.owners.check s row.id) := mild_check
  have hcall : Mild (c.storage.FailsWith (c.storage.call store (.delete row)).2)
      (c.storage.call store (.delete row)).1 :=
    Storage.mild_call (List.mem_cons_of_mem _ List.mem_cons_self)
  unfold recordDelete
  split
  next f heq => exact hcheck.passed heq
  next =>
    generalize c.storage.call store (.delete row) = called at hcall
    obtain ⟨answer, storage⟩ := called
    cases answer with
    | error f => exact hcall
    | ok done => exact mild_ok _

theorem mild_insertInto {values : List Value} :
    Mild (c.storage.FailsWith (c.insertInto s r t values).2.storage)
      (c.insertInto s r t values).1 := by
  have hwritable {known : Failure → Prop} : Mild known (c.writable r t) := mild_writable
  have hnew {known : Failure → Prop} : Mild known (c.storage.newRow t values).1 :=
    Storage.mild_newRow
  have hadds : c.storage.Adds (fun _ => True) (c.storage.newRow t values).2 := Storage.newRow_adds
  have hcalls : (c.storage.newRow t values).2.calls = c.storage.calls := Storage.calls_newRow
  unfold insertInto
  split
  next f heq => exact hwritable.passed heq
  next =>
    unfold insertRow
    generalize c.storage.newRow t values = allotted at hnew hadds hcalls
    obtain ⟨outcome, storage⟩ := allotted
    cases outcome with
    | error f => exact hnew.passed rfl
    | ok row =>
      have hrecord : Mild (storage.FailsWith ({ c with storage }.recordInsert s t row).2.storage)
          ({ c with storage }.recordInsert s t row).1 := mild_recordInsert
      dsimp only
      generalize { c with storage }.recordInsert s t row = recorded at hrecord
      obtain ⟨answer, c₁⟩ := recorded
      cases answer with
      | error f =>
        intro g hg hends
        cases hg
        exact (hrecord f rfl hends).of_same hcalls fun _ _ => hadds.fault?
      | ok done => exact mild_ok _

theorem mild_deleteAt {position : RowPosition} :
    Mild (c.storage.FailsWith (c.deleteAt s r t position).2.storage)
      (c.deleteAt s r t position).1 := by
  have hwritable {known : Failure → Prop} : Mild known (c.writable r t) := mild_writable
  unfold deleteAt
  split
  next f heq => exact hwritable.passed heq
  next =>
    split
    next => exact mild_error rfl
    next => exact mild_recordDelete

theorem mild_rollbackToIndex {i : Nat} : Mild known (c.rollbackToIndex s i).1 := by
  unfold rollbackToIndex
  split
  next => exact mild_error rfl
  next => exact mild_ok _

theorem mild_rollbackToSavepoint {name : String} : Mild known (c.rollbackToSavepoint s name).1 := by
  unfold rollbackToSavepoint
  split
  next => exact mild_error rfl
  next => exact mild_rollbackToIndex

theorem mild_validate {h : Handover} : Mild known h.validate := by
  unfold Handover.validate
  split
  next => exact mild_ok _
  next => exact mild_error rfl

theorem mild_build {mode : ControlMode} {h : Handover} : Mild known (Coordinator.build mode h) := by
  have hvalid : Mild known h.validate := mild_validate
  unfold build
  split
  next =>
    unfold resume
    split
    next => exact mild_ok _
    next f heq => exact hvalid.passed heq
  next => exact mild_error rfl
  next => exact mild_error rfl

theorem mild_handover : Mild known (c.handover s) := by
  unfold handover
  dsimp only
  generalize (if (c.tx s).isOpen = true then 1 else 0) = own
  generalize (if (c.tx s).isOpen = true then [(c.tx s).beganAt] else []) = live
  have hvalid : Mild known (Handover.validate ⟨c.clock.current, live⟩) := mild_validate
  split
  next => exact mild_error rfl
  next =>
    split
    next => exact mild_ok _
    next f heq => exact hvalid.passed heq

end Coordinator

namespace Session

variable {s : SessionId} {c : Coordinator}

theorem mild_setControl {mode : ControlMode} : Mild known (setControl s c mode) := by
  have hleft : Mild known (c.handover s) := Coordinator.mild_handover
  unfold setControl
  split
  next => exact mild_ok _
  next =>
    split
    next f heq => exact hleft.passed heq
    next => exact Coordinator.mild_build.map

end Session

end LockingDb
