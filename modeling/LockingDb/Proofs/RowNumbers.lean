import LockingDb.Proofs.DatabaseLedger

namespace LockingDb

namespace Storage

variable {s : Storage} {a : RowAction} {row : Option Row} {now : Timestamp}

theorem undo_nextRow : (a.undo row now s).2.2.nextRow = s.nextRow := by
  have hcall (r : Row) : (s.call a.store (.rollback r a.type)).2.nextRow = s.nextRow := call_nextRow
  unfold RowAction.undo
  split
  next => rfl
  next =>
    split
    next => rfl
    next r =>
      have hnext := hcall r
      generalize s.call a.store (.rollback r a.type) = called at hnext
      obtain ⟨answer, s'⟩ := called
      cases answer <;> exact hnext

theorem undoAll_nextRow (as : List RowAction) :
    (Coordinator.undoAll now as s).nextRow = s.nextRow := by
  induction as generalizing s with
  | nil => rfl
  | cons a rest ih => exact ih.trans undo_nextRow

theorem finalizeAll_nextRow (as : List RowAction) :
    (Coordinator.finalizeAll now as s).2.nextRow = s.nextRow := by
  induction as generalizing s with
  | nil => rfl
  | cons a rest ih =>
    unfold Coordinator.finalizeAll
    split
    next => exact ih
    next r _ =>
      have hnext : (s.call a.store (.commit r (a.commit now).type)).2.nextRow = s.nextRow := call_nextRow
      generalize s.call a.store (.commit r (a.commit now).type) = called at hnext
      obtain ⟨answer, s'⟩ := called
      cases answer <;> exact ih.trans hnext

end Storage

namespace Coordinator

variable {c c' : Coordinator} {s : SessionId} {t : TableId} {r : LockRequest} {row : Row}

/-- At most one row id is given out. -/
def Allots (c c' : Coordinator) : Prop :=
  c'.storage.nextRow = c.storage.nextRow ∨ c'.storage.nextRow = nextCount c.storage.nextRow

theorem Quiet.allots (h : Quiet s c c') : c.Allots c' :=
  Or.inl (congrArg Storage.nextRow h.storage)

theorem allots_refl (c : Coordinator) : c.Allots c := Or.inl rfl

theorem nextRow_undoTo {start : Nat} {now : Timestamp} :
    (c.undoTo s start now).2.storage.nextRow = c.storage.nextRow := Storage.undoAll_nextRow _

theorem nextRow_rollbackStatement :
    (c.rollbackStatement s).storage.nextRow = c.storage.nextRow := by
  have hrest := quiet_rest_of_rollbackStatement (c := c) (s := s)
  rw [hrest.storage]
  exact nextRow_undoTo

theorem nextRow_rollback : (c.rollback s).storage.nextRow = c.storage.nextRow := by
  obtain ⟨now, hstorage⟩ := storage_rollback c s
  rw [hstorage]
  exact Storage.undoAll_nextRow _

theorem nextRow_commit : (c.commit s).2.storage.nextRow = c.storage.nextRow := by
  have hcommits := c.commit_commits s
  generalize c.commitEvent? s = e, (c.commit s).2 = c' at hcommits
  cases hcommits with
  | refused habort => rfl
  | failed habort hlog => exact nextRow_rollback
  | @done journal habort hlog =>
    rw [storage_closed]
    exact Storage.finalizeAll_nextRow _

theorem nextRow_rollbackToIndex {i : Nat} :
    (c.rollbackToIndex s i).2.storage.nextRow = c.storage.nextRow := by
  unfold rollbackToIndex
  split
  next => rfl
  next => exact Storage.undoAll_nextRow _

theorem nextRow_rollbackToSavepoint {name : String} :
    (c.rollbackToSavepoint s name).2.storage.nextRow = c.storage.nextRow := by
  unfold rollbackToSavepoint
  split
  next => rfl
  next => exact nextRow_rollbackToIndex

theorem nextRow_unregister : (c.unregister s).storage.nextRow = c.storage.nextRow := by
  have hwithdrawn (c₁ : Coordinator) : (c₁.withdraw s).storage = c₁.storage :=
    congrArg Prod.fst withdraw_data
  unfold Coordinator.unregister
  dsimp only
  rw [hwithdrawn]
  split
  next => exact nextRow_rollback
  next => rfl

theorem nextRow_recordDelete : (c.recordDelete s t row).2.storage.nextRow = c.storage.nextRow := by
  have hcall : (c.storage.call t (.delete row)).2.nextRow = c.storage.nextRow := Storage.call_nextRow
  unfold Coordinator.recordDelete
  split
  next => rfl
  next =>
    generalize c.storage.call t (.delete row) = called at hcall
    obtain ⟨answer, storage⟩ := called
    cases answer <;> exact hcall

theorem nextRow_deleteAt {position : RowPosition} :
    (c.deleteAt s r t position).2.storage.nextRow = c.storage.nextRow := by
  unfold Coordinator.deleteAt
  split
  next => rfl
  next =>
    split
    next => rfl
    next => exact nextRow_recordDelete

theorem nextRow_recordInsert : (c.recordInsert s t row).2.storage.nextRow = c.storage.nextRow := by
  have hcall : (c.storage.call t (.index row)).2.nextRow = c.storage.nextRow := Storage.call_nextRow
  unfold Coordinator.recordInsert
  generalize c.storage.call t (.index row) = called at hcall
  obtain ⟨answer, storage⟩ := called
  cases answer <;> exact hcall

theorem allots_insertInto {values : List Value} : c.Allots (c.insertInto s r t values).2 := by
  have hnew : (c.storage.newRow t values).2.nextRow = c.storage.nextRow ∨
      (c.storage.newRow t values).2.nextRow = nextCount c.storage.nextRow := by
    unfold Storage.newRow
    split
    next => exact Or.inl rfl
    next => exact Or.inr rfl
  unfold Coordinator.insertInto insertRow
  split
  next => exact allots_refl c
  next =>
    generalize c.storage.newRow t values = created at hnew
    obtain ⟨answer, storage⟩ := created
    cases answer with
    | error f => exact hnew
    | ok row =>
      have hsame : ({ c with storage }.recordInsert s t row).2.storage.nextRow = storage.nextRow :=
        nextRow_recordInsert
      dsimp only
      generalize { c with storage }.recordInsert s t row = recorded at hsame
      obtain ⟨outcome, c'⟩ := recorded
      have hallots : c.Allots c' := by
        unfold Allots
        rw [hsame]
        exact hnew
      cases outcome <;> exact hallots

end Coordinator

namespace Session

open Coordinator

variable {s : SessionId} {c : Coordinator} {x : Session} {k : SessionCall}

theorem runBody_allots (body : StatementBody) : c.Allots (x.runBody s c body).2 := by
  cases body with
  | insert t values next => exact allots_insertInto
  | delete t position next => exact Or.inl nextRow_deleteAt
  | deleteWhere t test next =>
    dsimp only [runBody]
    split <;> exact allots_refl c
  | _ => exact allots_refl c

theorem step_allots : c.Allots (x.step s c).2 := by
  unfold step
  split
  next => exact allots_refl c
  next => split <;> exact allots_refl c
  next =>
    have hallots := (beginStatement_begins c s x.statement.request).quiet.allots
    generalize c.beginStatement s x.statement.request = begun at hallots
    obtain ⟨answer, c₁⟩ := begun
    split <;> rename_i heq <;> cases heq <;> exact hallots
  next => split <;> exact allots_refl c
  next =>
    have hquiet : Quiet s c (c.cancelWait s) := quiet_cancelWait
    exact hquiet.allots
  next =>
    have hquiet : Quiet s c (c.resumeStatement s).2 := quiet_resumeStatement
    have hallots := hquiet.allots
    split
    next => exact allots_refl c
    next =>
      generalize c.resumeStatement s = resumed at hallots
      obtain ⟨answer, c₁⟩ := resumed
      cases answer <;> exact hallots
  next => exact runBody_allots _
  next => exact allots_refl c
  next t row rows count next _ =>
    have hnext : (c.recordDelete s t row).2.storage.nextRow = c.storage.nextRow :=
      nextRow_recordDelete
    generalize c.recordDelete s t row = deleted at hnext
    obtain ⟨answer, c₁⟩ := deleted
    cases answer <;> exact Or.inl hnext
  next => exact Or.inl nextRow_rollbackStatement
  next =>
    split
    next => exact allots_refl c
    next => split <;> exact allots_refl c
  next =>
    have hquiet : Quiet s c (c.signal s fun _ => (c.tx s).signals.takeRedo.2) := quiet_signal
    dsimp only
    split
    next => exact Or.inl (nextRow_rollbackStatement.trans (congrArg Storage.nextRow hquiet.storage))
    next => exact (hquiet.trans quiet_completeStatement).allots
  next =>
    split
    next => exact allots_refl c
    next => split <;> exact allots_refl c
  next =>
    have hnext : (c.commit s).2.storage.nextRow = c.storage.nextRow := nextRow_commit
    generalize c.commit s = committed at hnext
    obtain ⟨result, c₁⟩ := committed
    split <;> rename_i heq <;> cases heq <;> exact Or.inl hnext
  next => exact Or.inl nextRow_rollback

theorem close_allots : c.Allots (x.close s c).2 := by
  unfold close
  split
  next => exact allots_refl c
  next => exact Or.inl nextRow_unregister

theorem settle_allots {outcome : Except Failure SessionTx} : c.Allots (x.settle s c outcome).2 := by
  cases outcome <;> exact allots_refl c

theorem undone_allots {undone : Except Failure Unit × Coordinator} {sql : String}
    (hnext : undone.2.storage.nextRow = c.storage.nextRow) : c.Allots
      (match undone with
        | (.error f, c) => (x.finish (.error f), c)
        | (.ok (), c) => (x.finish (.ok .done), c.noteStatement s sql)).2 := by
  obtain ⟨answer, c₁⟩ := undone
  cases answer <;> exact Or.inl hnext

theorem callOpen_allots : c.Allots (x.callOpen s c k).2 := by
  cases k with
  | begin =>
    have hquiet : Quiet s c (c.beginTransaction s) := quiet_beginTransaction
    exact hquiet.allots
  | prepare =>
    have hquiet : Quiet s c (c.prepare s).2 := quiet_prepare
    have hallots := hquiet.allots
    dsimp only [callOpen]
    generalize c.prepare s = prepared at hallots
    obtain ⟨answer, c₁⟩ := prepared
    cases answer <;> exact hallots
  | rollback =>
    dsimp only [callOpen]
    split <;> exact allots_refl c
  | rollbackTo name => exact undone_allots nextRow_rollbackToSavepoint
  | rollbackToFirst => exact undone_allots nextRow_rollbackToIndex
  | release name =>
    dsimp only [callOpen]
    split <;> exact allots_refl c
  | setAutocommit on =>
    dsimp only [callOpen]
    split <;> exact allots_refl c
  | setIsolation level => exact settle_allots
  | setReadOnly on => exact settle_allots
  | execute statement =>
    dsimp only [callOpen]
    split <;> exact allots_refl c
  | close => exact close_allots
  | _ => exact allots_refl c

theorem call_allots : c.Allots (x.call s c k).2 := by
  unfold call
  dsimp only
  split
  next =>
    split
    next => exact callOpen_allots
    next => exact callOpen_allots
    next => exact allots_refl c
  next => exact callOpen_allots

end Session

namespace Database

open Coordinator Session

variable {db : Database} {s : SessionId}

theorem withSession_allots {f : Session → Coordinator → Session × Coordinator}
    (hf : ∀ x, db.coordinator.Allots (f x db.coordinator).2) :
    db.coordinator.Allots (db.withSession s f).coordinator := by
  unfold Database.withSession
  split
  next => exact allots_refl _
  next x _ => exact hf x

theorem drop_allots : db.coordinator.Allots (db.drop s).coordinator := by
  have hclosed : db.coordinator.Allots
      (db.withSession s fun x c => if x.isIdle then x.close s c else (x, c)).coordinator := by
    refine withSession_allots fun x => ?_
    split
    next => exact close_allots
    next => exact allots_refl _
  unfold Database.drop
  dsimp only
  split
  next => split <;> exact hclosed
  next => exact hclosed

theorem perform_allots {m : Move} (hm : m.isInside = true) :
    db.coordinator.Allots (db.perform m).coordinator := by
  cases m with
  | createTable name watched =>
    refine Or.inl ?_
    show (db.coordinator.storage.createTable name watched).2.nextRow = _
    unfold Storage.createTable
    split <;> rfl
  | checkpoint => exact allots_refl _
  | connect => exact allots_refl _
  | call s k =>
    refine withSession_allots fun x => ?_
    split
    next => exact call_allots
    next => exact allots_refl _
  | advance s => exact withSession_allots fun x => step_allots
  | expire s => exact withSession_allots fun x => allots_refl _
  | raiseAbort s => exact allots_refl _
  | drop s => exact drop_allots
  | outside storage journal => cases hm

theorem runsInside_of_nextRow {moves : List Move} {n : Nat}
    (hinside : ∀ m ∈ moves, m.isInside = true) (hnext : db.coordinator.storage.nextRow = n)
    (hpositive : 0 < n) (hshort : n + moves.length < UInt64.size) : db.RunsInside moves := by
  induction moves generalizing db n with
  | nil => trivial
  | cons m rest ih =>
    rw [List.length_cons] at hshort
    have hfirst := hinside m List.mem_cons_self
    have hrest (m' : Move) (hm' : m' ∈ rest) := hinside m' (List.mem_cons_of_mem m hm')
    have hallots : db.coordinator.Allots (db.perform m).coordinator := perform_allots hfirst
    rcases hallots with hsame | hmore
    · rw [hnext] at hsame
      refine ⟨hfirst, hsame ▸ Nat.ne_of_gt hpositive, ih hrest hsame hpositive (by omega)⟩
    · rw [hnext, nextCount_eq (by omega)] at hmore
      refine ⟨hfirst, hmore ▸ Nat.succ_ne_zero n, ih hrest hmore (Nat.succ_pos n) (by omega)⟩

/-- Row numbers do not start over in a run of fewer than `2 ^ 64 - 1` moves. -/
theorem runsInside_of_short {settings : Settings} {journal : Journal} {moves : List Move}
    (hopen : openWith? settings journal = .ok db) (hinside : ∀ m ∈ moves, m.isInside = true)
    (hshort : moves.length + 1 < UInt64.size) : db.RunsInside moves := by
  have hfirst : db.coordinator.storage.nextRow = 1 := by
    rw [openWith?_eq hopen]
    rfl
  exact runsInside_of_nextRow hinside hfirst Nat.one_pos (by omega)

end Database

end LockingDb
