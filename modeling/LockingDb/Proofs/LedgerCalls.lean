import LockingDb.Proofs.LedgerInStep

namespace LockingDb

namespace Coordinator

open Change

variable {c c' : Coordinator} {s x y : SessionId} {t : TableId} {r : LockRequest} {l : Ledger}
  {d : Draft} {k : Change} {now : Timestamp} {row : Row}

/-- What a session that works on a row leaves. -/
structure Writes (s : SessionId) (c : Coordinator) (l : Ledger) (d : Draft) (c' : Coordinator) :
    Prop where
  inStep : c'.InStep (l.note s d none)
  journal : c'.journal = c.journal
  locks : c'.locks = c.locks
  isOpen : (c'.tx s).isOpen = (c.tx s).isOpen
  statementStart : (c'.tx s).statementStart = (c.tx s).statementStart
  savepoints : (c'.tx s).savepoints = (c.tx s).savepoints

theorem writes_refl (h : c.InStep l) : Writes s c l (l.draft s) c :=
  ⟨h.redraft rfl, rfl, rfl, rfl, rfl, rfl⟩

/-- A store that refuses to work leaves the rows as they were. -/
theorem InStep.writes_refused (h : c.InStep l) (hagree : c.locks.HoldersAgree) {storage : Storage}
    {trace : List TracedCall} (hedits : c.storage.Edits t (c.storage.contents t) storage) :
    Writes s c l (l.draft s) { c with storage, trace } := by
  have hsame (u : TableId) : storage.contents u = c.storage.contents u := by
    by_cases hu : u = t
    · exact hu ▸ hedits.contents
    · exact hedits.others u hu
  refine ⟨h.goesOn hagree (fun _ _ => spares_storage) hedits.sound ?_ fun u => ?_, rfl, rfl, rfl,
    rfl, rfl⟩
  · have hcarries := h.carries s
    exact hcarries.of_work rfl ⟨id, fun _ => id⟩
  · refine Or.inl ⟨rfl, ?_, hsame u⟩
    rw [Ledger.draft_note_self]

/-- A row is changed in its store and the change is noted. -/
theorem InStep.writes_push (h : c.InStep l) (hagree : c.locks.HoldersAgree)
    (hmode : c.locks.mode? s k.table = some .exclusive) (hopen : (c.tx s).isOpen = true)
    (hallowed : (c.storage.contents k.table).Allows k) {storage : Storage}
    (hsound : storage.Sound)
    (hcontents : storage.contents k.table = (c.storage.contents k.table).change k)
    (hrest : ∀ u, u ≠ k.table → storage.contents u = c.storage.contents u) {owners : RowOwnership}
    {trace : List TracedCall} {f : SessionTx → SessionTx} (hf : f (c.tx s) = (c.tx s).pushAction
      (.ofRow (k.type (l.draft s).changes) s now k.table k.row)) :
    Writes s c l ((l.draft s).add k) ({ c with storage, trace, owners }.updateTx s f) := by
  have htx : ({ c with storage, trace, owners }.updateTx s f).tx s = (c.tx s).pushAction
      (.ofRow (k.type (l.draft s).changes) s now k.table k.row) := tx_updateTx_self.trans hf
  have hothers (y : SessionId) (hy : y ≠ s) :
      Spares y c ({ c with storage, trace, owners }.updateTx s f) :=
    spares_of_eq rfl (tx_setTx_of_ne hy) rfl
  refine ⟨h.push hagree hothers hmode hopen hallowed rfl htx hsound hcontents hrest, rfl, rfl, ?_,
    ?_, ?_⟩
  all_goals
    rw [htx]
    rfl

theorem isSome_of_writable (hwritable : c.writable r t = .ok ()) :
    (c.storage.tables.get? t).isSome = true := by
  unfold writable Storage.table? at hwritable
  split at hwritable
  next =>
    cases htable : c.storage.tables.get? t with
    | some table => rfl
    | none =>
      rw [htable] at hwritable
      cases hwritable
  next => cases hwritable

theorem allowsRead_of_readable (hreadable : c.readable r t = .ok ()) : r.allowsRead t = true := by
  unfold readable at hreadable
  split at hreadable
  next hallowed => exact hallowed
  next => cases hreadable

theorem mem_writes_of_writable_ok (hwritable : c.writable r t = .ok ()) : t ∈ r.writes := by
  refine mem_writes_of_writable (c := c) ?_
  rw [hwritable]
  rfl

theorem insertInto_of_newRow {values : List Value} {fresh after : Storage}
    {answer : Except Failure Unit} (hwritable : c.writable r t = .ok ())
    (hnew : c.storage.newRow t values = (.ok row, fresh))
    (hcall : fresh.call t (.index row) = (answer, after)) :
    (c.insertInto s r t values).2.storage = after ∧ (answer = .ok () →
      c.insertInto s r t values = (.ok row.position,
        { ({ c with storage := fresh } : Coordinator).withCalls s after with
            owners := c.owners.claim s row.id }.updateTx s fun tx =>
          tx.pushAction (.insert s tx.actionAt t row))) := by
  cases answer with
  | error f =>
    simp only [insertInto, hwritable, insertRow, hnew, recordInsert, hcall]
    exact ⟨rfl, nofun⟩
  | ok done =>
    simp only [insertInto, hwritable, insertRow, hnew, recordInsert, hcall]
    exact ⟨rfl, fun _ => trivial⟩

/-- An insert that a statement is allowed to make succeeds. -/
theorem InStep.insertInto (h : c.InStep l) (hagree : c.locks.HoldersAgree)
    (hmode : ∀ t ∈ r.writes, c.locks.mode? s t = some .exclusive)
    (hopen : (c.tx s).isOpen = true) {values : List Value}
    (hnext : (c.insertInto s r t values).2.storage.nextRow ≠ 0) :
    Writes s c l (match (c.insertInto s r t values).1 with
      | .ok position => (l.draft s).add (.insert ⟨c.storage.nextRow, position, t, values⟩)
      | .error _ => l.draft s) (c.insertInto s r t values).2 := by
  cases hwritable : c.writable r t with
  | error f =>
    have hrefused : c.insertInto s r t values = (.error f, c) := by
      unfold Coordinator.insertInto
      rw [hwritable]
    rw [hrefused]
    exact writes_refl h
  | ok done =>
    have ht := isSome_of_writable hwritable
    have hnew : c.storage.newRow t values = _ := Storage.newRow_eq h.sound ht
    generalize hfresh : ({ c.storage.setStore t
      ((c.storage.storeOf t).newRow c.storage.nextRow values).2 with
      nextRow := nextCount c.storage.nextRow } : Storage) = fresh at hnew
    have hcount : fresh.nextRow = nextCount c.storage.nextRow := by rw [← hfresh]
    obtain ⟨answer, after, hcall⟩ : ∃ answer after,
        fresh.call t (.index (c.storage.rowOf t values)) = (answer, after) := ⟨_, _, rfl⟩
    obtain ⟨hafter, hdone⟩ := insertInto_of_newRow (s := s) hwritable hnew hcall
    have hcalled : after.nextRow = fresh.nextRow := by
      rw [← Storage.call_nextRow (s := fresh), hcall]
    rw [hafter, hcalled, hcount] at hnext
    obtain ⟨hallowed, hok, hedits⟩ := h.sound.insertRow values ht hnext
    have hothers (u : TableId) (hu : u ≠ t) :
        (c.storage.newRow t values).2.contents u = c.storage.contents u :=
      ((h.sound.newRow_allocates values ht hnext).contents u).trans (if_neg hu)
    rw [hnew] at hothers hok hedits
    rw [hcall] at hok hedits
    have hdone := hdone hok
    rw [hdone]
    refine h.writes_push (k := .insert (c.storage.rowOf t values))
      (f := fun tx => tx.pushAction (.insert s tx.actionAt t (c.storage.rowOf t values))) hagree
      (hmode t (mem_writes_of_writable_ok hwritable)) hopen hallowed hedits.sound hedits.contents
      (fun u hu => ?_) rfl
    exact (hedits.others u hu).trans (hothers u hu)

/-- What a transaction finds in its log about a row is right. -/
theorem InStep.insertedHere_iff (h : c.InStep l) (hagree : c.locks.HoldersAgree)
    (hrow : c.storage.get? t row.position = some row) :
    (c.tx s).insertedHere row.id = true ↔ .insert row ∈ (l.draft s).changes := by
  have hcarries := h.carries s
  rw [SessionTx.insertedHere_iff hcarries.indexed]
  constructor
  · rintro ⟨a, ha, hid, htype⟩
    obtain ⟨k, hk, hnotes⟩ := exists_change_of_mem hcarries.logged.notes ha
    have hfits := hnotes.type
    rw [htype] at hfits
    cases k with
    | insert other =>
      have hfound := (h.of_mem hagree hk).1
      have hsame := h.sound.apart _ _ _ _ other row hfound hrow (hnotes.row.symm.trans hid)
      rwa [hsame] at hk
    | delete other => rcases hfits with hfits | hfits <;> cases hfits
  · intro hk
    obtain ⟨a, ha, hnotes⟩ := exists_action_of_mem hcarries.logged.notes hk
    exact ⟨a, ha, hnotes.row, hnotes.type⟩

theorem InStep.recordDelete (h : c.InStep l) (hagree : c.locks.HoldersAgree)
    (hmode : c.locks.mode? s t = some .exclusive) (hopen : (c.tx s).isOpen = true)
    (hrow : c.storage.get? t row.position = some row) :
    Writes s c l (match (c.recordDelete s t row).1 with
      | .ok () => (l.draft s).add (.delete row)
      | .error _ => l.draft s) (c.recordDelete s t row).2 := by
  have htable : row.table = t := (h.sound.placed t row.position row hrow).1
  have hnoted (stamp : Timestamp) :
      RowAction.delete s stamp t row ((c.tx s).insertedHere row.id) =
        .ofRow ((Change.delete row).type (l.draft s).changes) s stamp t row := by
    have hinserted := h.insertedHere_iff (s := s) hagree hrow
    have htype : (Change.delete row).type (l.draft s).changes =
      if .insert row ∈ (l.draft s).changes then .insertThenDelete else .delete := rfl
    rw [RowAction.delete, htype]
    by_cases hk : Change.insert row ∈ (l.draft s).changes
    · rw [if_pos hk, if_pos (hinserted.mpr hk)]
    · rw [if_neg hk, if_neg fun hin => hk (hinserted.mp hin)]
  cases hcheck : c.owners.check s row.id with
  | error f =>
    have hrefused : c.recordDelete s t row = (.error f, c) := by
      unfold Coordinator.recordDelete
      rw [hcheck]
    rw [hrefused]
    exact writes_refl h
  | ok done =>
    have hdelete := h.sound.call_delete row (Storage.isSome_of_get? hrow)
    obtain ⟨answer, storage, hcall⟩ : ∃ answer storage,
        c.storage.call t (.delete row) = (answer, storage) := ⟨_, _, rfl⟩
    rw [hcall] at hdelete
    rcases hdelete with ⟨rfl, hvisible, hedits⟩ | ⟨⟨f, rfl⟩, hedits⟩
    · have hdone : c.recordDelete s t row = (.ok (),
          { c.withCalls s storage with owners := c.owners.claim s row.id }.updateTx s fun tx =>
            tx.pushAction (.delete s tx.actionAt t row (tx.insertedHere row.id))) := by
        unfold Coordinator.recordDelete
        rw [hcheck]
        dsimp only
        rw [hcall]
      have hpush := congrArg (c.tx s).pushAction (hnoted (c.tx s).actionAt)
      rw [hdone]
      subst htable
      refine h.writes_push (k := .delete row) (f := fun tx =>
        tx.pushAction (.delete s tx.actionAt row.table row (tx.insertedHere row.id))) hagree hmode
        hopen ⟨hvisible, ?_⟩ hedits.sound hedits.contents hedits.others hpush
      exact Storage.get?_eq.symm.trans hrow
    · have hrefused : c.recordDelete s t row = (.error f, c.withCalls s storage) := by
        unfold Coordinator.recordDelete
        rw [hcheck]
        dsimp only
        rw [hcall]
      rw [hrefused]
      exact h.writes_refused hagree hedits

theorem InStep.deleteAt (h : c.InStep l) (hagree : c.locks.HoldersAgree)
    (hmode : ∀ t ∈ r.writes, c.locks.mode? s t = some .exclusive)
    (hopen : (c.tx s).isOpen = true) {position : RowPosition} :
    Writes s c l (match c.storage.get? t position, (c.deleteAt s r t position).1 with
      | some row, .ok () => (l.draft s).add (.delete row)
      | _, _ => l.draft s) (c.deleteAt s r t position).2 := by
  cases hwritable : c.writable r t with
  | error f =>
    have hrefused : c.deleteAt s r t position = (.error f, c) := by
      unfold Coordinator.deleteAt
      rw [hwritable]
    rw [hrefused]
    cases c.storage.get? t position <;> exact writes_refl h
  | ok done =>
    cases hrow : c.storage.get? t position with
    | none =>
      have hrefused : c.deleteAt s r t position = (.error (.rowNotFound position), c) := by
        unfold Coordinator.deleteAt
        rw [hwritable, hrow]
      rw [hrefused]
      exact writes_refl h
    | some row =>
      have hdeleted : c.deleteAt s r t position = c.recordDelete s t row := by
        unfold Coordinator.deleteAt
        rw [hwritable, hrow]
      have hposition := (h.sound.placed t position row hrow).2
      rw [← hposition] at hrow
      have hwrites := h.recordDelete hagree (hmode t (mem_writes_of_writable_ok hwritable)) hopen hrow
      rw [hdeleted]
      generalize c.recordDelete s t row = deleted at hwrites
      obtain ⟨answer, after⟩ := deleted
      cases answer with
      | error f => exact hwrites
      | ok done => exact hwrites

theorem storage_undoTo {start : Nat} {inHand : List Row} :
    (c.undoTo s start now inHand).2.storage =
      undoAll now ((c.tx s).actions.drop start).reverse c.storage inHand := by
  rw [← SessionTx.truncateActions_removed]
  rfl

/-- The changes after a point in time are taken back. -/
theorem InStep.undoTo (h : c.InStep l) (hagree : c.locks.HoldersAgree)
    (hinitial : d.changes <+: (l.draft s).changes) :
    (c.undoTo s d.changes.length now).2.InStep (l.note s d none) := by
  have hcarries := h.carries s
  have htake : (l.draft s).changes.take d.changes.length = d.changes :=
    (List.prefix_iff_eq_take.mp hinitial).symm
  have hsplit : d.changes ++ (l.draft s).changes.drop d.changes.length = (l.draft s).changes := by
    rw [← htake, List.length_take_of_le hinitial.length_le, List.take_append_drop]
  generalize hlast : (l.draft s).changes.drop d.changes.length = last at hsplit
  have hmem {k : Change} (hk : k ∈ last) : k ∈ (l.draft s).changes := by
    rw [← hsplit]
    exact List.mem_append_right _ hk
  have hback : d.changes ++ last.reverse.reverse = (l.draft s).changes := by
    rw [List.reverse_reverse, hsplit]
  have hnotes : List.Forall₂ RowAction.Notes ((c.tx s).actions.drop d.changes.length).reverse
      last.reverse := by
    rw [List.forall₂_reverse_iff, ← hlast]
    exact List.forall₂_drop _ hcarries.logged.notes
  have hevolved : ∀ k ∈ last.reverse, ∃ m, Contents.Evolved m
      (onTable k.table (d.changes ++ last.reverse.reverse)) (c.storage.contents k.table) := by
    intro k hk
    rw [hback]
    exact ⟨_, h.evolved_of_mem hagree (hmem (List.mem_reverse.mp hk))⟩
  obtain ⟨hsound, hsame, hundone⟩ := undoAll_evolved now h.sound hnotes hevolved
  have hstorage : (c.undoTo s d.changes.length now).2.storage =
      undoAll now ((c.tx s).actions.drop d.changes.length).reverse c.storage := storage_undoTo
  refine h.goesOn hagree (fun y hy => spares_undoTo hy) (hstorage ▸ hsound) ?_ fun t => ?_
  · refine ⟨?_, ?_, fun k hk => hcarries.locked k (hinitial.subset hk), fun hks => ?_⟩
    · rw [tx_undoTo_self, SessionTx.truncateActions_actions, ← htake,
        List.length_take_of_le hinitial.length_le]
      exact hcarries.logged.take _
    · rw [tx_undoTo_self]
      exact SessionTx.indexes_truncateActions hcarries.indexed _
    · rw [tx_undoTo_self]
      refine (SessionTx.truncateActions_continues _ _).isOpen (hcarries.isOpen fun hnil => hks ?_)
      rw [hnil] at hinitial
      exact List.prefix_nil.mp hinitial
  · rw [Leads, Ledger.draft_note_self, hstorage]
    by_cases ht : onTable t last = []
    · refine Or.inl ⟨rfl, ?_, hsame t ?_⟩
      · rw [← hsplit, onTable_append, ht, List.append_nil]
      · rw [onTable, List.filter_reverse]
        exact List.reverse_eq_nil_iff.mpr ht
    · obtain ⟨k, hfound⟩ := List.exists_mem_of_ne_nil _ ht
      obtain ⟨hk, rfl⟩ := mem_onTable.mp hfound
      refine Or.inr ⟨hcarries.locked k (hmem hk), fun hevolved => hundone k.table _ ?_⟩
      rw [hback]
      exact hevolved

theorem savepoints_undoTo {start : Nat} :
    ((c.undoTo s start now).2.tx s).savepoints = (c.tx s).savepoints := by
  rw [tx_undoTo_self]
  unfold SessionTx.truncateActions
  split <;> rfl

theorem upholds_undoTo {start : Nat} : Upholds s c (c.undoTo s start now).2 := by
  refine upholds_of_continues ?_ undoTo_locks
  rw [tx_undoTo_self]
  exact SessionTx.truncateActions_continues _ start

theorem quiet_rest_of_rollbackStatement : Quiet s
    (c.undoTo s (c.tx s).statementStart (c.tx s).actionAt).2 (c.rollbackStatement s) := by
  have hrows (c₁ : Coordinator) (rows : List RowId) : Quiet s c₁ (c₁.releaseRows rows) :=
    quiet_of_eq rfl rfl rfl
  exact (hrows _ _).trans quiet_endStatement

theorem InStep.rollbackStatement (h : c.InStep l) (hagree : c.locks.HoldersAgree)
    (hinitial : d.changes <+: (l.draft s).changes)
    (hstart : (c.tx s).statementStart = d.changes.length) :
    (c.rollbackStatement s).InStep (l.note s d none) := by
  have hundone : (c.undoTo s d.changes.length (c.tx s).actionAt).2.InStep (l.note s d none) :=
    h.undoTo hagree hinitial
  rw [← hstart] at hundone
  refine hundone.quiet hagree (fun y hy => ?_) quiet_rest_of_rollbackStatement
  exact spares_releaseRows.trans (spares_endStatement hy)

theorem upholds_rollbackStatement : Upholds s c (c.rollbackStatement s) :=
  upholds_undoTo.trans quiet_rest_of_rollbackStatement.toUpholds

theorem savepoints_rollbackStatement :
    ((c.rollbackStatement s).tx s).savepoints = (c.tx s).savepoints := by
  have hquiet := quiet_rest_of_rollbackStatement (c := c) (s := s)
  have hsame := congrArg (fun work => work.2.2) hquiet.work
  exact Eq.trans hsame savepoints_undoTo

theorem journal_rollbackStatement :
    (c.rollbackStatement s).journal.entries = c.journal.entries ∧
      (c.rollbackStatement s).journal.faults = c.journal.faults :=
  ⟨quiet_rest_of_rollbackStatement.entries, quiet_rest_of_rollbackStatement.faults⟩

/-- What a rollback to a savepoint leaves. -/
structure Rewinds (s : SessionId) (c : Coordinator) (l : Ledger) (d : Draft) (i : Nat)
    (c' : Coordinator) : Prop where
  inStep : c'.InStep (l.note s d none)
  upholds : Upholds s c c'
  journal : c'.journal = c.journal
  savepoints : (c'.tx s).savepoints = (c.tx s).savepoints.take (i + 1)

theorem InStep.rollbackToIndex (h : c.InStep l) (hagree : c.locks.HoldersAgree) {i : Nat}
    {savepoint : Savepoint} (hfound : (c.tx s).savepoints[i]? = some savepoint)
    (hinitial : d.changes <+: (l.draft s).changes)
    (hlength : savepoint.logLength = d.changes.length) :
    (c.rollbackToIndex s i).1 = .ok () ∧ Rewinds s c l d i (c.rollbackToIndex s i).2 := by
  have hundone : (c.undoTo s d.changes.length savepoint.timestamp).2.InStep (l.note s d none) :=
    h.undoTo hagree hinitial
  rw [← hlength] at hundone
  have hup : Upholds s c (c.undoTo s savepoint.logLength savepoint.timestamp).2 := upholds_undoTo
  have hmarks : ((c.undoTo s savepoint.logLength savepoint.timestamp).2.tx s).savepoints =
      (c.tx s).savepoints := savepoints_undoTo
  have hkept : (c.undoTo s savepoint.logLength savepoint.timestamp).2.locks = c.locks ∧
      (c.undoTo s savepoint.logLength savepoint.timestamp).2.journal = c.journal := ⟨rfl, rfl⟩
  unfold Coordinator.rollbackToIndex
  rw [hfound]
  dsimp only
  generalize c.undoTo s savepoint.logLength savepoint.timestamp = undone at hundone hup hmarks hkept
  obtain ⟨rows, c₁⟩ := undone
  obtain ⟨hlocks, hjournal⟩ := hkept
  have hcut : (c₁.updateTx s (·.truncateSavepoints (i + 1))).InStep (l.note s d none) :=
    hundone.setTx (hlocks ▸ hagree) rfl rfl id
  have hupdated : (c₁.updateTx s (·.truncateSavepoints (i + 1))).tx s =
      (c₁.tx s).truncateSavepoints (i + 1) := tx_updateTx_self
  have htx : ((c₁.updateTx s (·.truncateSavepoints (i + 1))).releaseRows rows).tx s =
      (c₁.tx s).truncateSavepoints (i + 1) := hupdated
  refine ⟨rfl, hcut.of_eq rfl (fun _ => rfl) rfl (Nat.le_refl _), hup.trans ?_, hjournal, ?_⟩
  · refine upholds_of_continues ?_ rfl
    rw [htx]
    exact ⟨rfl, id, rfl, id⟩
  · rw [htx, SessionTx.truncateSavepoints, hmarks]

/-- A transaction without changes is closed. -/
theorem InStep.closed (h : c.InStep l) (hagree : c.locks.HoldersAgree)
    (hd : (l.draft s).changes = []) {rows : List RowId} :
    (((c.endTx s rows).signal s .release).closeTx s now).InStep l := by
  have hdata (c₁ : Coordinator) : ((c₁.signal s .release).closeTx s now).data = c₁.data := rfl
  refine h.release (s := s) hagree (fun y hy => ?_) ((hdata _).trans endTx_data) hd ?_ ?_
  · exact ((spares_endTx hy).trans (spares_signal hy)).trans (spares_closeTx hy)
  all_goals
    rw [closeTx, tx_updateTx_self]
    rfl

/-- A rollback takes everything back, and then ends the transaction. -/
theorem rollback_undone (c : Coordinator) (s : SessionId) (inHand : List Row := []) :
    ∃ rows now c₁ c₂, c₁ = (c.signal s fun g => g.clearAbort.takeRedo.2).tick.2 ∧
      c₁.undoTo s 0 now inHand = (rows, c₂) ∧
        c.rollback s inHand = ((c₂.endTx s rows).signal s .release).closeTx s now := by
  unfold Coordinator.rollback
  exact ⟨_, _, _, _, rfl, rfl, rfl⟩

theorem storage_rollback (c : Coordinator) (s : SessionId) (inHand : List Row := []) :
    ∃ now, (c.rollback s inHand).storage =
      undoAll now (c.tx s).actions.reverse c.storage inHand := by
  obtain ⟨rows, now, c₁, c₂, hbegun, hundo, heq⟩ := rollback_undone c s inHand
  have hactions : (c₁.tx s).actions = (c.tx s).actions := by
    rw [hbegun]
    exact congrArg Prod.fst (quiet_signal.trans quiet_tick).work
  have hundone : (c₁.undoTo s 0 now inHand).2.storage =
      undoAll now ((c₁.tx s).actions.drop 0).reverse c₁.storage inHand := storage_undoTo
  rw [hundo, List.drop_zero, hactions] at hundone
  refine ⟨now, ?_⟩
  rw [heq]
  show (c₂.endTx s rows).storage = _
  rw [storage_endTx, hundone, hbegun]
  rfl

theorem InStep.rollback (h : c.InStep l) (hagree : c.locks.HoldersAgree) :
    (c.rollback s).InStep (l.note s .empty none) := by
  obtain ⟨rows, now, c₁, c₂, hbegun, hundo, heq⟩ := rollback_undone c s
  have hstarted : c₁.InStep l := by
    rw [hbegun]
    exact h.quiet hagree (fun y hy => (spares_signal hy).trans spares_tick)
      (quiet_signal.trans quiet_tick)
  have hagree₁ : c₁.locks.HoldersAgree := hbegun ▸ hagree
  have hundone : (c₁.undoTo s 0 now).2.InStep (l.note s .empty none) :=
    hstarted.undoTo (d := .empty) hagree₁ List.nil_prefix
  have hagree₂ : (c₁.undoTo s 0 now).2.locks.HoldersAgree := hagree₁
  simp only [hundo] at hundone hagree₂
  rw [heq]
  refine hundone.closed hagree₂ ?_
  rw [Ledger.draft_note_self]
  rfl

theorem rollback_journal : (c.rollback s).journal = c.journal := by
  obtain ⟨rows, now, c₁, c₂, hbegun, hundo, heq⟩ := rollback_undone c s
  have hclosed (c₃ : Coordinator) : ((c₃.signal s .release).closeTx s now).journal = c₃.journal := rfl
  have hended : (c₂.endTx s rows).journal = c₂.journal := journal_of_data endTx_data
  have hundone : (c₁.undoTo s 0 now).2.journal = c₁.journal := rfl
  rw [hundo] at hundone
  rw [heq, hclosed, hended, hundone, hbegun]
  rfl

end Coordinator

end LockingDb
