import LockingDb.Proofs.CoordinatorCalls
import LockingDb.Proofs.RowNumbers
import LockingDb.Proofs.TransactionEnd

namespace LockingDb

/-- A step in the use of a coordinator: a row is allocated, or a call is made. -/
inductive RowStep where
  | allocate (t : TableId) (values : List Value)
  | call (k : CoordinatorCall)

theorem StateChange.apply_log (k : StateChange) (tx : SessionTx) : (k.apply tx).log.2 = tx.log.2 := by
  cases k with
  | isolation level =>
    unfold StateChange.apply SessionTx.setIsolation
    dsimp only
    split <;> rfl
  | readOnly on =>
    unfold StateChange.apply SessionTx.setReadOnly
    dsimp only
    split <;> rfl
  | _ => rfl

namespace IdMap

variable {α : Type} {m : IdMap α} {s : IdSet}

theorem size_eq_of_keys (h : ∀ k, k ∈ s ↔ (m.get? k).isSome = true) : m.size = s.size := by
  have hkeys : (⟨m.keys, m.increasing⟩ : IdSet) = s :=
    IdSet.ext fun k => mem_keys.trans (h k).symm
  rw [← hkeys]
  exact (List.length_map Prod.fst).symm

end IdMap

namespace Coordinator

def takeStep (c : Coordinator) : RowStep → Coordinator
  | .allocate t values => { c with storage := (c.storage.newRow t values).2 }
  | .call k => c.perform k

def takeSteps (c : Coordinator) (steps : List RowStep) : Coordinator := steps.foldl takeStep c

/-- The rows that have been allocated and that nobody has worked on yet. -/
def freshAfter (c : Coordinator) (fresh : List Row) : RowStep → List Row
  | .allocate t values => fresh ++ (c.storage.newRow t values).1.toOption.toList
  | .call (.recordInsert s store row) =>
    if (c.recordInsert s store row).1.isOk then fresh.filter (·.id ≠ row.id) else fresh
  | .call (.recordDelete s store row) =>
    if (c.recordDelete s store row).1.isOk then fresh.filter (·.id ≠ row.id) else fresh
  | .call _ => fresh

/-- The rows of a call come from the counter of row ids: those that are inserted are fresh, and
those that are deleted have been allocated. Nobody turns the counter back. -/
def fitsRows (c : Coordinator) (fresh : List Row) : CoordinatorCall → Bool
  | .recordInsert _ _ row => row ∈ fresh
  | .recordDelete _ _ row => row.id < c.storage.nextRow
  | .outside storage _ => c.storage.nextRow ≤ storage.nextRow
  | _ => true

/-- The counter of row ids does not start over, and only sessions call that have been registered. -/
def AdmitsStep (c : Coordinator) (fresh : List Row) : RowStep → Prop
  | .allocate _ _ => nextCount c.storage.nextRow = c.storage.nextRow + 1
  | .call k => (∀ s ∈ k.caller?, s < c.nextSession) ∧ c.fitsRows fresh k = true

instance (c : Coordinator) (fresh : List Row) : (step : RowStep) →
    Decidable (c.AdmitsStep fresh step)
  | .allocate _ _ => inferInstanceAs (Decidable (_ = _))
  | .call _ => inferInstanceAs (Decidable (_ ∧ _))

/-- All steps of a run use rows in this way. -/
def UsesRows (c : Coordinator) (fresh : List Row) : List RowStep → Prop
  | [] => True
  | step :: rest =>
    c.AdmitsStep fresh step ∧ (c.takeStep step).UsesRows (c.freshAfter fresh step) rest

instance instDecidableUsesRows (c : Coordinator) (fresh : List Row) : (steps : List RowStep) →
    Decidable (c.UsesRows fresh steps)
  | [] => inferInstanceAs (Decidable True)
  | step :: rest =>
    have := instDecidableUsesRows (c.takeStep step) (c.freshAfter fresh step) rest
    inferInstanceAs (Decidable (c.AdmitsStep fresh step ∧
      (c.takeStep step).UsesRows (c.freshAfter fresh step) rest))

/-- The log of a session has an action on a row. -/
def Records (c : Coordinator) (s : SessionId) (row : RowId) : Prop :=
  ∃ a ∈ (c.tx s).actions, a.row = row

/-- The rows with an action in the log of any session. -/
def recordedRows (c : Coordinator) : IdSet :=
  .ofList (c.sessions.values.flatMap fun tx => tx.actions.map RowAction.row)

variable {c c' c₁ c₂ : Coordinator} {s y : SessionId} {row : RowId} {r : LockRequest}
  {now : Timestamp}

theorem mem_recordedRows : row ∈ c.recordedRows ↔ ∃ s, c.Records s row := by
  have hlogs : row ∈ c.recordedRows ↔ ∃ tx ∈ c.sessions.values, ∃ a ∈ tx.actions, a.row = row := by
    simp only [recordedRows, IdSet.mem_ofList, List.mem_flatMap, List.mem_map]
  rw [hlogs]
  constructor
  · rintro ⟨tx, htx, hrecords⟩
    obtain ⟨s, hs⟩ := IdMap.mem_values.mp htx
    have hfound : c.tx s = tx := by rw [Coordinator.tx, hs, Option.getD_some]
    exact ⟨s, by rwa [Records, hfound]⟩
  · rintro ⟨s, a, ha, hrow⟩
    cases hs : c.sessions.get? s with
    | none =>
      rw [Coordinator.tx, hs] at ha
      cases ha
    | some tx =>
      rw [Coordinator.tx, hs] at ha
      exact ⟨tx, IdMap.mem_values.mpr ⟨s, hs⟩, a, ha, hrow⟩

theorem records_congr (h : (c'.tx s).actions = (c.tx s).actions) :
    c'.Records s row ↔ c.Records s row := by
  rw [Records, h, Records]

/-- A session is at most left without some of the last actions of its log, and without the rows
that have no action in it any more. The logs of others, the other rows and the numbers to be given
out next stay as they are. -/
structure Cuts (s : SessionId) (c c' : Coordinator) : Prop where
  index : Indexes (c.tx s).rowIndex (c.tx s).actions → Indexes (c'.tx s).rowIndex (c'.tx s).actions
  kept : (c'.tx s).actions <+: (c.tx s).actions
  others : ∀ y, y ≠ s → (c'.tx y).log.2 = (c.tx y).log.2
  freed : Indexes (c.tx s).rowIndex (c.tx s).actions → ∀ row, c.Records s row →
    ¬c'.Records s row → c'.owners.owner? row = none
  same : Indexes (c.tx s).rowIndex (c.tx s).actions → ∀ row,
    (c.Records s row → c'.Records s row) → c'.owners.owner? row = c.owners.owner? row
  nextRow : c'.storage.nextRow = c.storage.nextRow
  nextSession : c'.nextSession = c.nextSession

theorem Cuts.records (h : Cuts s c c') (hrecords : c'.Records s row) : c.Records s row := by
  obtain ⟨a, ha, hrow⟩ := hrecords
  exact ⟨a, h.kept.subset ha, hrow⟩

theorem Cuts.trans (h : Cuts s c c') (h₂ : Cuts s c' c₂) : Cuts s c c₂ where
  index hindex := h₂.index (h.index hindex)
  kept := h₂.kept.trans h.kept
  others y hy := (h₂.others y hy).trans (h.others y hy)
  freed hindex row hbefore hafter := by
    by_cases hmiddle : c'.Records s row
    · exact h₂.freed (h.index hindex) row hmiddle hafter
    · rw [h₂.same (h.index hindex) row fun hrecords => absurd hrecords hmiddle]
      exact h.freed hindex row hbefore hmiddle
  same hindex row hkept := by
    have hmiddle (hbefore : c.Records s row) : c'.Records s row := h₂.records (hkept hbefore)
    rw [h₂.same (h.index hindex) row fun hrecords => hkept (h.records hrecords)]
    exact h.same hindex row hmiddle
  nextRow := h₂.nextRow.trans h.nextRow
  nextSession := h₂.nextSession.trans h.nextSession

theorem cuts_of_same (hlog : ∀ y, (c'.tx y).log.2 = (c.tx y).log.2) (howners : c'.owners = c.owners)
    (hrow : c'.storage.nextRow = c.storage.nextRow) (hsession : c'.nextSession = c.nextSession) :
    Cuts s c c' := by
  have hactions : (c'.tx s).actions = (c.tx s).actions := congrArg Prod.fst (hlog s)
  have hindex : (c'.tx s).rowIndex = (c.tx s).rowIndex := congrArg Prod.snd (hlog s)
  refine ⟨fun h => ?_, hactions ▸ List.prefix_refl _, fun y _ => hlog y, fun _ row hbefore hafter => ?_,
    fun _ row _ => by rw [howners], hrow, hsession⟩
  · rw [hactions, hindex]
    exact h
  · exact absurd ((records_congr hactions).mpr hbefore) hafter

theorem Cuts.refl (s : SessionId) (c : Coordinator) : Cuts s c c :=
  cuts_of_same (fun _ => rfl) rfl rfl rfl

theorem log_of_work {tx tx' : SessionTx} (h : tx'.work = tx.work) : tx'.log.2 = tx.log.2 :=
  congrArg (fun work => (work.1, work.2.1)) h

theorem Spares.log (h : Spares y c c') : (c'.tx y).log.2 = (c.tx y).log.2 :=
  log_of_work (SessionTx.work_of_unlatched h.tx)

/-- A call that leaves the work of its session and the owners of rows alone. -/
theorem Quiet.cuts (hq : Quiet s c c') (hothers : ∀ y, y ≠ s → Spares y c c')
    (howners : c'.owners = c.owners) : Cuts s c c' := by
  have hspares := hothers (s + 1) (Nat.succ_ne_self s)
  refine cuts_of_same (fun y => ?_) howners (congrArg Storage.nextRow hq.storage)
    hspares.nextSession
  by_cases hy : y = s
  · exact hy ▸ log_of_work hq.work
  · exact (hothers y hy).log

theorem cuts_beginTransaction : Cuts s c (c.beginTransaction s) :=
  quiet_beginTransaction.cuts (fun _ hy => spares_beginTransaction hy) owners_beginTransaction

theorem cuts_beginStatement : Cuts s c (c.beginStatement s r).2 := by
  have hbegins := beginStatement_begins c s r
  exact hbegins.quiet.cuts (fun y hy => spares_beginStatement hy)
    (owners_of_accounts hbegins.accounts)

theorem cuts_resumeStatement : Cuts s c (c.resumeStatement s).2 :=
  quiet_resumeStatement.cuts (fun _ hy => spares_resumeStatement hy) owners_resumeStatement

theorem cuts_cancelWait : Cuts s c (c.cancelWait s) :=
  quiet_cancelWait.cuts (fun _ hy => spares_cancelWait hy) owners_cancelWait

theorem cuts_endStatement : Cuts s c (c.endStatement s) :=
  quiet_endStatement.cuts (fun _ hy => spares_endStatement hy) owners_endStatement

theorem cuts_completeStatement : Cuts s c (c.completeStatement s) :=
  quiet_completeStatement.cuts (fun _ hy => spares_completeStatement hy) owners_endStatement

theorem cuts_prepare : Cuts s c (c.prepare s).2 :=
  quiet_prepare.cuts (fun _ hy => spares_prepare hy) owners_prepare

/-- The rows that an undo gives back are those without an action that is left. -/
theorem mem_undoTo {start : Nat} (h : Indexes (c.tx s).rowIndex (c.tx s).actions) :
    row ∈ (c.undoTo s start now).1 ↔ (∃ a ∈ (c.tx s).actions.drop start, a.row = row) ∧
      ¬∃ a ∈ (c.tx s).actions.take start, a.row = row := by
  have hleft := SessionTx.indexes_truncateActions h start
  rw [SessionTx.truncateActions_actions] at hleft
  have hgone := @Indexes.get?_eq_none _ _ row hleft
  unfold undoTo
  dsimp only
  rw [IdSet.mem_toList, IdSet.mem_filter, IdSet.mem_ofList, SessionTx.truncateActions_removed,
    List.mem_map, SessionTx.hasRowActions, IdMap.contains_eq, Bool.not_eq_true',
    Option.isSome_eq_false_iff, Option.isNone_iff_eq_none, hgone]
  simp only [not_exists, not_and, ne_eq]

/-- The log is cut off, and the rows without an action that is left are given back. -/
theorem cuts_undone {start : Nat} {rows : List RowId} (hundo : c.undoTo s start now = (rows, c₁))
    (hlog : (c'.tx s).log.2 = (c₁.tx s).log.2) (howners : c'.owners = c₁.owners.release rows)
    (hothers : ∀ y, y ≠ s → Spares y c c') (hrow : c'.storage.nextRow = c₁.storage.nextRow) :
    Cuts s c c' := by
  have hspares := hothers (s + 1) (Nat.succ_ne_self s)
  have howners₁ : c₁.owners = c.owners := congrArg (fun undone => undone.2.owners) hundo.symm
  have hlog₁ : ((c.undoTo s start now).2.tx s).log = ((c.tx s).isOpen, (c.tx s).actions.take start,
      ((c.tx s).truncateActions start).2.rowIndex) := log_undoTo
  have hnext : (c.undoTo s start now).2.storage.nextRow = c.storage.nextRow := nextRow_undoTo
  rw [hundo] at hlog₁ hnext
  obtain ⟨hactions, hindex⟩ : (c'.tx s).actions = (c.tx s).actions.take start ∧
      (c'.tx s).rowIndex = ((c.tx s).truncateActions start).2.rowIndex :=
    Prod.mk.inj (hlog.trans (congrArg Prod.snd hlog₁))
  have hrecords (row : RowId) : c'.Records s row ↔ ∃ a ∈ (c.tx s).actions.take start, a.row = row := by
    rw [Records, hactions]
  have hall (row : RowId) : c.Records s row ↔ (∃ a ∈ (c.tx s).actions.take start, a.row = row) ∨
      ∃ a ∈ (c.tx s).actions.drop start, a.row = row := by
    have hmem (a : RowAction) : a ∈ (c.tx s).actions ↔
        a ∈ (c.tx s).actions.take start ∨ a ∈ (c.tx s).actions.drop start := by
      rw [← List.mem_append, List.take_append_drop]
    simp only [Records, hmem, or_and_right, exists_or]
  have hgiven (h : Indexes (c.tx s).rowIndex (c.tx s).actions) (row : RowId) : row ∈ rows ↔
      (∃ a ∈ (c.tx s).actions.drop start, a.row = row) ∧
        ¬∃ a ∈ (c.tx s).actions.take start, a.row = row := by
    have hmem : row ∈ (c.undoTo s start now).1 ↔ _ := mem_undoTo h
    rwa [hundo] at hmem
  refine ⟨fun h => ?_, hactions ▸ List.take_prefix _ _, fun y hy => (hothers y hy).log,
    fun h row hbefore hafter => ?_, fun h row hkept => ?_, hrow.trans hnext, hspares.nextSession⟩
  · rw [hactions, hindex, ← SessionTx.truncateActions_actions]
    exact SessionTx.indexes_truncateActions h start
  · rw [hrecords] at hafter
    have hdropped := ((hall row).mp hbefore).resolve_left hafter
    rw [howners, RowOwnership.owner?_release, if_pos ((hgiven h row).mpr ⟨hdropped, hafter⟩)]
  · rw [howners, howners₁, RowOwnership.owner?_release, if_neg]
    intro hin
    obtain ⟨hdropped, hafter⟩ := (hgiven h row).mp hin
    exact hafter ((hrecords row).mp (hkept ((hall row).mpr (.inr hdropped))))

theorem cuts_rollbackStatement : Cuts s c (c.rollbackStatement s) := by
  obtain ⟨rows, c₁, hundo⟩ : ∃ rows c₁,
      c.undoTo s (c.tx s).statementStart (c.tx s).actionAt = (rows, c₁) := ⟨_, _, rfl⟩
  have hundone : Cuts s c (c₁.releaseRows rows) := by
    refine cuts_undone hundo rfl rfl (fun y hy => ?_) rfl
    have hspares : Spares y c (c.undoTo s (c.tx s).statementStart (c.tx s).actionAt).2 :=
      spares_undoTo hy
    rw [hundo] at hspares
    exact hspares.trans spares_releaseRows
  have hended : c.rollbackStatement s = (c₁.releaseRows rows).endStatement s := by
    unfold Coordinator.rollbackStatement
    dsimp only
    rw [hundo]
  rw [hended]
  exact hundone.trans cuts_endStatement

theorem cuts_rollbackToIndex {i : Nat} : Cuts s c (c.rollbackToIndex s i).2 := by
  have hothers (y : SessionId) (hy : y ≠ s) : Spares y c (c.rollbackToIndex s i).2 :=
    spares_rollbackToIndex hy
  unfold Coordinator.rollbackToIndex at hothers ⊢
  split
  next => exact .refl s c
  next savepoint hfound =>
    rw [hfound] at hothers
    obtain ⟨rows, c₁, hundo⟩ : ∃ rows c₁,
        c.undoTo s savepoint.logLength savepoint.timestamp = (rows, c₁) := ⟨_, _, rfl⟩
    dsimp only at hothers ⊢
    rw [hundo] at hothers ⊢
    have hcut : ((c₁.updateTx s (·.truncateSavepoints (i + 1))).tx s).log = (c₁.tx s).log := by
      rw [tx_updateTx_self]
      rfl
    exact cuts_undone hundo (congrArg Prod.snd hcut) rfl hothers rfl

theorem cuts_rollbackToSavepoint {name : String} : Cuts s c (c.rollbackToSavepoint s name).2 := by
  unfold Coordinator.rollbackToSavepoint
  split
  next => exact .refl s c
  next => exact cuts_rollbackToIndex

/-- The log is cleared, and all its rows are given back. -/
theorem cuts_cleared {rows : List RowId} (hlog : (c'.tx s).log = (false, [], ∅))
    (howners : c'.owners = c.owners.release rows) (hrows : Indexes (c.tx s).rowIndex (c.tx s).actions →
      ∀ row, row ∈ rows ↔ c.Records s row) (hothers : ∀ y, y ≠ s → Spares y c c')
    (hrow : c'.storage.nextRow = c.storage.nextRow) : Cuts s c c' := by
  have hspares := hothers (s + 1) (Nat.succ_ne_self s)
  obtain ⟨-, hactions, hindex⟩ : (c'.tx s).isOpen = false ∧ (c'.tx s).actions = [] ∧
      (c'.tx s).rowIndex = ∅ := by simpa [SessionTx.log] using hlog
  have hnone (row : RowId) : ¬c'.Records s row := by
    rintro ⟨a, ha, -⟩
    rw [hactions] at ha
    cases ha
  refine ⟨fun _ => ?_, hactions ▸ List.nil_prefix, fun y hy => (hothers y hy).log,
    fun h row hbefore _ => ?_, fun h row hkept => ?_, hrow, hspares.nextSession⟩
  · rw [hactions, hindex]
    exact indexes_empty
  · rw [howners, RowOwnership.owner?_release, if_pos ((hrows h row).mpr hbefore)]
  · rw [howners, RowOwnership.owner?_release, if_neg]
    exact fun hin => hnone row (hkept ((hrows h row).mp hin))

theorem log_closeTx : ((c.closeTx s now).tx s).log = (false, [], ∅) := by
  rw [closeTx, tx_updateTx_self]
  rfl

theorem cuts_rollback : Cuts s c (c.rollback s) := by
  obtain ⟨rows, now, c₁, c₂, hbegun, hundo, heq⟩ := rollback_undone c s
  have hsame : c₁.owners = c.owners ∧ (c₁.tx s).log.2 = (c.tx s).log.2 := by
    rw [hbegun]
    exact ⟨rfl, congrArg Prod.snd log_begun⟩
  obtain ⟨howners, hlog⟩ := hsame
  obtain ⟨hactions, hindex⟩ : (c₁.tx s).actions = (c.tx s).actions ∧
      (c₁.tx s).rowIndex = (c.tx s).rowIndex := Prod.mk.inj hlog
  have howners₂ : c₂.owners = c₁.owners := congrArg (fun undone => undone.2.owners) hundo.symm
  refine @cuts_cleared _ _ _ rows ?_ ?_ (fun h row => ?_) (fun y hy => spares_rollback hy)
    nextRow_rollback
  · rw [heq]
    exact log_closeTx
  · rw [heq, closeTx_owners, signal_owners, owners_endTx, howners₂, howners]
  · have hindexes : Indexes (c₁.tx s).rowIndex (c₁.tx s).actions := by
      rw [hactions, hindex]
      exact h
    have hmem : row ∈ (c₁.undoTo s 0 now).1 ↔ _ := mem_undoTo hindexes
    rw [hundo] at hmem
    rw [hmem, hactions, List.drop_zero, List.take_zero, Records]
    exact and_iff_left fun ⟨a, ha, _⟩ => nomatch ha

theorem cuts_commit : Cuts s c (c.commit s).2 := by
  have hothers (y : SessionId) (hy : y ≠ s) : Spares y c (c.commit s).2 := spares_commit hy
  have hnext : (c.commit s).2.storage.nextRow = c.storage.nextRow := nextRow_commit
  have hcommits := c.commit_commits s
  generalize c.commitEvent? s = e, (c.commit s).2 = c' at hcommits hothers hnext
  cases hcommits with
  | refused habort => exact .refl s c
  | @failed f journal habort hlog =>
    have hlogged : Cuts s c { c.tick.2 with journal } := cuts_of_same (fun _ => rfl) rfl rfl rfl
    exact hlogged.trans cuts_rollback
  | @done journal habort hlog =>
    refine @cuts_cleared _ _ _ (c.tx s).touchedRows log_closeTx ?_ (fun h row => ?_) hothers hnext
    · rw [closeTx_owners, owners_endTx]
      rfl
    · have hgone := @Indexes.get?_eq_none _ _ row h
      rw [SessionTx.touchedRows, IdMap.mem_keys, Option.isSome_iff_ne_none, Ne, hgone]
      simp only [Records, not_forall, ne_eq, not_not, exists_prop]

theorem cuts_unregister : Cuts s c (c.unregister s) := by
  have hleft (c₁ : Coordinator) : Cuts s c₁
      { c₁.withdraw s with registered := (c₁.withdraw s).registered.erase s } := by
    have hwithdrawn : Cuts s c₁ (c₁.withdraw s) :=
      quiet_withdraw.cuts (fun y hy => spares_withdraw hy)
        (owners_of_accounts withdraw_accounts)
    exact hwithdrawn.trans (cuts_of_same (fun _ => rfl) rfl rfl rfl)
  unfold Coordinator.unregister
  dsimp only
  split
  next => exact cuts_rollback.trans (hleft _)
  next => exact hleft c

/-- The owners of rows mirror the logs, and nobody has worked on a fresh row yet. -/
structure Mirrored (c : Coordinator) (fresh : List Row) : Prop where
  indexed : ∀ s, Indexes (c.tx s).rowIndex (c.tx s).actions
  owned : ∀ row s, c.owners.owner? row = some s ↔ c.Records s row
  known : ∀ s row, c.Records s row → s < c.nextSession
  allotted : ∀ s row, c.Records s row → row < c.storage.nextRow
  unused : ∀ row ∈ fresh, row.id < c.storage.nextRow ∧ c.owners.owner? row.id = none

variable {fresh : List Row}

theorem mirrored_started {clock : Clock} {storage : Storage} {journal : Journal} :
    (started clock storage journal).Mirrored [] := by
  have hnone (s : SessionId) (row : RowId) : ¬(started clock storage journal).Records s row :=
    fun ⟨_, ha, _⟩ => nomatch ha
  refine ⟨fun _ => indexes_empty, fun row s => ⟨nofun, fun h => ?_⟩, fun s row h => ?_,
    fun s row h => ?_, nofun⟩
  all_goals exact absurd h (hnone s row)

/-- Only the counter of row ids and the rows not worked on yet matter besides logs and owners. -/
theorem Mirrored.of_same (h : c.Mirrored fresh) {fresh' : List Row}
    (hlog : ∀ y, (c'.tx y).log.2 = (c.tx y).log.2) (howners : c'.owners = c.owners)
    (hrow : c.storage.nextRow ≤ c'.storage.nextRow) (hsession : c.nextSession ≤ c'.nextSession)
    (hfresh : ∀ row ∈ fresh', row ∈ fresh ∨
      row.id = c.storage.nextRow ∧ c.storage.nextRow < c'.storage.nextRow) : c'.Mirrored fresh' := by
  have hrecords (y : SessionId) (row : RowId) : c'.Records y row ↔ c.Records y row :=
    records_congr (congrArg Prod.fst (hlog y))
  refine ⟨fun y => ?_, fun row y => ?_, fun y row hy => ?_, fun y row hy => ?_, fun row hin => ?_⟩
  · have hactions : (c'.tx y).actions = (c.tx y).actions := congrArg Prod.fst (hlog y)
    have hindex : (c'.tx y).rowIndex = (c.tx y).rowIndex := congrArg Prod.snd (hlog y)
    rw [hactions, hindex]
    exact h.indexed y
  · rw [howners, hrecords]
    exact h.owned row y
  · exact Nat.lt_of_lt_of_le (h.known y row ((hrecords y row).mp hy)) hsession
  · exact Nat.lt_of_lt_of_le (h.allotted y row ((hrecords y row).mp hy)) hrow
  · rw [howners]
    rcases hfresh row hin with hold | ⟨hid, hnew⟩
    · obtain ⟨hlt, hfree⟩ := h.unused row hold
      exact ⟨Nat.lt_of_lt_of_le hlt hrow, hfree⟩
    · refine ⟨hid ▸ hnew, Option.eq_none_iff_forall_ne_some.mpr fun y hy => ?_⟩
      exact Nat.lt_irrefl _ (hid ▸ h.allotted y row.id ((h.owned row.id y).mp hy))

theorem Mirrored.of_cuts (h : c.Mirrored fresh) (hcuts : Cuts s c c') : c'.Mirrored fresh := by
  have hothers (y : SessionId) (hy : y ≠ s) (row : RowId) : c'.Records y row ↔ c.Records y row :=
    records_congr (congrArg Prod.fst (hcuts.others y hy))
  have hrecords (y : SessionId) (row : RowId) (hrow : c'.Records y row) : c.Records y row := by
    by_cases hy : y = s
    · subst hy
      exact hcuts.records hrow
    · exact (hothers y hy row).mp hrow
  refine ⟨fun y => ?_, fun row y => ?_, fun y row hrow => ?_, fun y row hrow => ?_, fun row hin => ?_⟩
  · by_cases hy : y = s
    · subst hy
      exact hcuts.index (h.indexed y)
    · have hlog := hcuts.others y hy
      have hactions : (c'.tx y).actions = (c.tx y).actions := congrArg Prod.fst hlog
      have hindex : (c'.tx y).rowIndex = (c.tx y).rowIndex := congrArg Prod.snd hlog
      rw [hactions, hindex]
      exact h.indexed y
  · by_cases hlost : c.Records s row ∧ ¬c'.Records s row
    · -- The row was the session's own, so no other log has it either.
      obtain ⟨hbefore, hafter⟩ := hlost
      rw [hcuts.freed (h.indexed s) row hbefore hafter]
      refine ⟨nofun, fun hrow => ?_⟩
      have hsame := ((h.owned row y).mpr (hrecords y row hrow)).symm.trans
        ((h.owned row s).mpr hbefore)
      exact absurd (Option.some.inj hsame ▸ hrow) hafter
    · have hkept (hbefore : c.Records s row) : c'.Records s row :=
        not_not.mp fun hafter => hlost ⟨hbefore, hafter⟩
      rw [hcuts.same (h.indexed s) row hkept, h.owned row y]
      refine ⟨fun hrow => ?_, hrecords y row⟩
      by_cases hy : y = s
      · subst hy
        exact hkept hrow
      · exact (hothers y hy row).mpr hrow
  · rw [hcuts.nextSession]
    exact h.known y row (hrecords y row hrow)
  · rw [hcuts.nextRow]
    exact h.allotted y row (hrecords y row hrow)
  · obtain ⟨hlt, hfree⟩ := h.unused row hin
    rw [hcuts.nextRow, hcuts.same (h.indexed s) row.id fun hbefore => ?_]
    · exact ⟨hlt, hfree⟩
    · have howner := (h.owned row.id s).mpr hbefore
      rw [hfree] at howner
      cases howner

/-- An action on a row that is free or the session's own goes to the end of the log. -/
theorem Mirrored.record (h : c.Mirrored fresh) {storage : Storage} (a : SessionTx → RowAction)
    (ha : ∀ tx, (a tx).row = row) (hfree : c.owners.check s row = .ok ())
    (hs : s < c.nextSession) (hrow : row < c.storage.nextRow)
    (hnext : storage.nextRow = c.storage.nextRow) :
    Mirrored ({ c.withCalls s storage with owners := c.owners.claim s row }.updateTx s fun tx =>
      tx.pushAction (a tx)) (fresh.filter (·.id ≠ row)) := by
  generalize hc' : { c.withCalls s storage with owners := c.owners.claim s row }.updateTx s
    (fun tx => tx.pushAction (a tx)) = c'
  have hpushed : c'.tx s = (c.tx s).pushAction (a (c.tx s)) := by
    rw [← hc', tx_updateTx_self]
    rfl
  have hsame (y : SessionId) (hy : y ≠ s) : c'.tx y = c.tx y := by
    rw [← hc']
    exact tx_setTx_of_ne hy
  have howners : c'.owners = c.owners.claim s row := by rw [← hc']; rfl
  have hcounter : c'.storage.nextRow = c.storage.nextRow := by rw [← hc']; exact hnext
  have hsession : c'.nextSession = c.nextSession := by rw [← hc']; rfl
  have hothers (y : SessionId) (hy : y ≠ s) (id : RowId) : c'.Records y id ↔ c.Records y id :=
    records_congr (congrArg SessionTx.actions (hsame y hy))
  have hown (id : RowId) : c'.Records s id ↔ c.Records s id ∨ id = row := by
    simp only [Records, hpushed, SessionTx.pushAction, List.mem_append, List.mem_singleton,
      or_and_right, exists_or, exists_eq_left, ha, eq_comm]
  have hbefore (y : SessionId) (id : RowId) (hid : c'.Records y id) :
      c.Records y id ∨ y = s ∧ id = row := by
    by_cases hy : y = s
    · subst hy
      exact ((hown id).mp hid).imp_right fun hrow => ⟨rfl, hrow⟩
    · exact .inl ((hothers y hy id).mp hid)
  refine ⟨fun y => ?_, fun id y => ?_, fun y id hid => ?_, fun y id hid => ?_, fun r hin => ?_⟩
  · by_cases hy : y = s
    · subst hy
      rw [hpushed]
      exact SessionTx.indexes_pushAction (h.indexed y)
    · rw [hsame y hy]
      exact h.indexed y
  · rw [howners, RowOwnership.owner?_claim]
    split
    next hid =>
      subst hid
      refine ⟨fun howner => Option.some.inj howner ▸ (hown id).mpr (.inr rfl), fun hid => ?_⟩
      rcases hbefore y id hid with hold | ⟨hy, -⟩
      · have howner := (h.owned id y).mpr hold
        rw [RowOwnership.check_eq_ok.mp hfree y howner]
      · rw [hy]
    next hid =>
      rw [h.owned id y]
      by_cases hy : y = s
      · subst hy
        rw [hown, or_iff_left hid]
      · exact (hothers y hy id).symm
  · rw [hsession]
    rcases hbefore y id hid with hold | ⟨hy, -⟩
    · exact h.known y id hold
    · exact hy ▸ hs
  · rw [hcounter]
    rcases hbefore y id hid with hold | ⟨-, hid⟩
    · exact h.allotted y id hold
    · exact hid ▸ hrow
  · obtain ⟨hold, hne⟩ := List.mem_filter.mp hin
    rw [hcounter, howners, RowOwnership.owner?_claim, if_neg (of_decide_eq_true hne)]
    exact h.unused r hold

theorem Mirrored.register (h : c.Mirrored fresh) {level : IsolationLevel} :
    (c.register level).2.Mirrored fresh := by
  refine h.of_same (fun y => ?_) rfl le_rfl (Nat.le_succ _) fun row hrow => .inl hrow
  show ((c.setTx c.nextSession (.fresh c.nextSession level)).tx y).log.2 = (c.tx y).log.2
  rw [tx_setTx]
  split
  next hy =>
    -- The log of a session that is not registered yet is empty, and so is its index.
    have hempty : (c.tx y).actions = [] := List.eq_nil_iff_forall_not_mem.mpr fun a ha =>
      absurd (h.known y a.row ⟨a, ha, rfl⟩) (hy ▸ Nat.lt_irrefl _)
    have hindex : (c.tx y).rowIndex = ∅ := IdMap.ext fun row => by
      rw [(h.indexed y).get?_eq_none.mpr fun a ha => by rw [hempty] at ha; cases ha]
      rfl
    show ([], ∅) = ((c.tx y).actions, (c.tx y).rowIndex)
    rw [hempty, hindex]
  next => rfl

theorem Mirrored.recordInsert (h : c.Mirrored fresh) {store : TableId} {r : Row}
    (hs : s < c.nextSession) (hr : r ∈ fresh) : (c.recordInsert s store r).2.Mirrored
      (c.freshAfter fresh (.call (.recordInsert s store r))) := by
  have hnext : (c.storage.call store (.index r)).2.nextRow = c.storage.nextRow := Storage.call_nextRow
  obtain ⟨hlt, hfree⟩ := h.unused r hr
  dsimp only [freshAfter]
  unfold Coordinator.recordInsert
  generalize c.storage.call store (.index r) = called at hnext
  obtain ⟨answer, storage⟩ := called
  cases answer with
  | error f => exact h.of_same (fun _ => rfl) rfl (Nat.le_of_eq hnext.symm) le_rfl fun _ => .inl
  | ok _ =>
    have hunowned : c.owners.check s r.id = .ok () :=
      RowOwnership.check_eq_ok.mpr fun owner howner => nomatch hfree.symm.trans howner
    exact h.record (fun tx => .insert s tx.actionAt store r) (fun _ => rfl) hunowned hs hlt hnext

theorem Mirrored.recordDelete (h : c.Mirrored fresh) {store : TableId} {r : Row}
    (hs : s < c.nextSession) (hr : r.id < c.storage.nextRow) : (c.recordDelete s store r).2.Mirrored
      (c.freshAfter fresh (.call (.recordDelete s store r))) := by
  have hnext : (c.storage.call store (.delete r)).2.nextRow = c.storage.nextRow := Storage.call_nextRow
  dsimp only [freshAfter]
  unfold Coordinator.recordDelete
  split
  next => exact h
  next hfree =>
    generalize c.storage.call store (.delete r) = called at hnext
    obtain ⟨answer, storage⟩ := called
    cases answer with
    | error f => exact h.of_same (fun _ => rfl) rfl (Nat.le_of_eq hnext.symm) le_rfl fun _ => .inl
    | ok _ =>
      exact h.record (fun tx => .delete s tx.actionAt store r (tx.insertedHere r.id))
        (fun _ => rfl) hfree hs hr hnext

theorem Mirrored.allocate (h : c.Mirrored fresh) {t : TableId} {values : List Value}
    (hcount : nextCount c.storage.nextRow = c.storage.nextRow + 1) :
    (c.takeStep (.allocate t values)).Mirrored (c.freshAfter fresh (.allocate t values)) := by
  dsimp only [takeStep, freshAfter]
  unfold Storage.newRow
  split
  next =>
    refine h.of_same (fun _ => rfl) rfl le_rfl le_rfl fun row hrow => .inl ?_
    exact (List.append_nil fresh) ▸ hrow
  next table _ =>
    have hgrown : c.storage.nextRow < nextCount c.storage.nextRow := hcount ▸ Nat.lt_succ_self _
    refine h.of_same (fun _ => rfl) rfl (Nat.le_of_lt hgrown) le_rfl fun row hrow => ?_
    refine (List.mem_append.mp hrow).imp_right fun hnew => ?_
    exact ⟨congrArg Row.id (List.mem_singleton.mp hnew), hgrown⟩

theorem Mirrored.change (h : c.Mirrored fresh) (k : StateChange) :
    (c.updateTx s k.apply).Mirrored fresh := by
  refine h.of_same (fun y => ?_) rfl le_rfl le_rfl fun _ => .inl
  by_cases hy : y = s
  · rw [hy, tx_updateTx_self]
    exact k.apply_log (c.tx s)
  · rw [updateTx, tx_setTx_of_ne hy]

/-- Every step keeps the owners in line with the logs. -/
theorem Mirrored.step (h : c.Mirrored fresh) {step : RowStep} (hstep : c.AdmitsStep fresh step) :
    (c.takeStep step).Mirrored (c.freshAfter fresh step) := by
  cases step with
  | allocate t values => exact h.allocate hstep
  | call k =>
    obtain ⟨hcaller, hfits⟩ := hstep
    cases k with
    | register level => exact h.register
    | unregister s => exact h.of_cuts cuts_unregister
    | beginTransaction s => exact h.of_cuts cuts_beginTransaction
    | beginStatement s r => exact h.of_cuts cuts_beginStatement
    | resumeStatement s => exact h.of_cuts cuts_resumeStatement
    | cancelWait s => exact h.of_cuts cuts_cancelWait
    | completeStatement s => exact h.of_cuts cuts_completeStatement
    | rollbackStatement s => exact h.of_cuts cuts_rollbackStatement
    | prepare s => exact h.of_cuts cuts_prepare
    | commit s => exact h.of_cuts cuts_commit
    | rollback s => exact h.of_cuts cuts_rollback
    | rollbackToIndex s i => exact h.of_cuts cuts_rollbackToIndex
    | rollbackToSavepoint s name => exact h.of_cuts cuts_rollbackToSavepoint
    | recordInsert s store row => exact h.recordInsert (hcaller s rfl) (of_decide_eq_true hfits)
    | recordDelete s store row => exact h.recordDelete (hcaller s rfl) (of_decide_eq_true hfits)
    | change s k => exact h.change k
    | outside storage journal =>
      exact h.of_same (fun _ => rfl) rfl (of_decide_eq_true hfits) le_rfl fun _ => .inl

theorem Mirrored.steps {steps : List RowStep} (h : c.Mirrored fresh)
    (hsteps : c.UsesRows fresh steps) : ∃ fresh', (c.takeSteps steps).Mirrored fresh' := by
  induction steps generalizing c fresh with
  | nil => exact ⟨fresh, h⟩
  | cons step rest ih =>
    obtain ⟨hstep, hrest⟩ := hsteps
    exact ih (h.step hstep) hrest

theorem Mirrored.owner_unique (h : c.Mirrored fresh) (hs : c.Records s row) (hy : c.Records y row) :
    s = y := Option.some.inj (((h.owned row s).mpr hs).symm.trans ((h.owned row y).mpr hy))

theorem Mirrored.conflict (h : c.Mirrored fresh) {store : TableId} {r : Row}
    (hy : c.Records y r.id) (hne : y ≠ s) :
    c.recordDelete s store r = (.error (.overwriteConflict r.id), c) := by
  have howner := (h.owned r.id y).mpr hy
  have hcheck : c.owners.check s r.id = .error (.overwriteConflict r.id) := by
    rw [RowOwnership.check, howner]
    exact if_neg hne
  rw [Coordinator.recordDelete, hcheck]

theorem Mirrored.size (h : c.Mirrored fresh) : c.owners.size = c.recordedRows.size := by
  refine IdMap.size_eq_of_keys fun row => ?_
  rw [mem_recordedRows, Option.isSome_iff_exists]
  exact exists_congr fun s => (h.owned row s).symm

/-- Whatever the calls are, and whatever store calls fail, a session owns exactly the rows with an
action in its log. So no row has actions of two sessions, nobody deletes a row that another session
has worked on, and as many rows are owned as stand in all logs. -/
theorem owners_mirror_logs (clock : Clock) (storage : Storage) (journal : Journal)
    (steps : List RowStep) (h : (started clock storage journal).UsesRows [] steps) :
    let c := (started clock storage journal).takeSteps steps
    (∀ row s, c.owners.owner? row = some s ↔ c.Records s row) ∧
      (∀ row s y, c.Records s row → c.Records y row → s = y) ∧
      (∀ s y store row, c.Records y row.id → y ≠ s →
        c.recordDelete s store row = (.error (.overwriteConflict row.id), c)) ∧
      c.owners.size = c.recordedRows.size := by
  obtain ⟨fresh, hm⟩ := mirrored_started.steps h
  exact ⟨hm.owned, fun _ _ _ => hm.owner_unique, fun _ _ _ _ => hm.conflict, hm.size⟩

/-- Session 1 inserts two rows and deletes the first one again, and goes back to between the two
inserts. Then session 2 deletes the first row. -/
def insertTwiceAndGoBack : List RowStep :=
  [.call (.register .readCommitted), .call (.register .readCommitted), .allocate 1 [], .allocate 1 [],
    .call (.beginTransaction 1), .call (.recordInsert 1 1 ⟨1, 1, 1, []⟩), .call (.change 1 (.savepoint "s")),
    .call (.recordInsert 1 1 ⟨2, 2, 1, []⟩), .call (.recordDelete 1 1 ⟨1, 1, 1, []⟩),
    .call (.rollbackToSavepoint 1 "s"), .call (.beginTransaction 2),
    .call (.recordDelete 2 1 ⟨1, 1, 1, []⟩)]

theorem owners_mirror_logs_insertTwiceAndGoBack : ∃ c : Coordinator,
    (started .zero (Storage.empty.addTable 1 false) .empty).UsesRows [] insertTwiceAndGoBack ∧
    (started .zero (Storage.empty.addTable 1 false) .empty).takeSteps insertTwiceAndGoBack = c ∧
    c.owners.owner? 1 = some 1 ∧ c.owners.owner? 2 = none ∧ c.owners.size = 1 ∧
    c.recordDelete 2 1 ⟨1, 1, 1, []⟩ = (.error (.overwriteConflict 1), c) := by
  have huses : (started .zero (Storage.empty.addTable 1 false) .empty).UsesRows []
      insertTwiceAndGoBack := by decide
  have hrows : ((started .zero (Storage.empty.addTable 1 false) .empty).takeSteps
      insertTwiceAndGoBack).recordedRows.toList = [1] := by decide
  have hfirst : ((started .zero (Storage.empty.addTable 1 false) .empty).takeSteps
      insertTwiceAndGoBack).Records 1 1 := by
    unfold Records
    decide
  obtain ⟨howned, -, hconflict, hsize⟩ := owners_mirror_logs _ _ _ _ huses
  generalize (started .zero (Storage.empty.addTable 1 false) .empty).takeSteps
    insertTwiceAndGoBack = c at hrows hfirst howned hconflict hsize
  have hsecond (s : SessionId) : ¬c.Records s 2 := by
    intro hrecords
    have hin := IdSet.mem_toList.mpr (mem_recordedRows.mpr ⟨s, hrecords⟩)
    rw [hrows] at hin
    cases List.mem_singleton.mp hin
  refine ⟨c, huses, rfl, (howned 1 1).mpr hfirst, ?_, ?_, hconflict 2 1 1 ⟨1, 1, 1, []⟩ hfirst nofun⟩
  · exact Option.eq_none_iff_forall_ne_some.mpr fun s hs => hsecond s ((howned 2 s).mp hs)
  · rw [hsize, IdSet.size, hrows]
    rfl

end Coordinator

end LockingDb
