import LockingDb.Proofs.RollbackInverse
import LockingDb.Proofs.StrictLocking

namespace LockingDb

open Coordinator Session

namespace Draft

variable {d : Draft} {tx : SessionTx} {p q : Savepoint} {i : Nat}

/-- The mark of a savepoint in the draft of its session. -/
theorem Marked.exists_mark (h : d.Marked tx) (hp : tx.savepoints[i]? = some p) :
    ∃ m, d.savepoints[i]? = some m ∧ m.1 = p.name ∧ m.2.length = p.logLength := by
  have hi := congrArg (·[i]?) h.same
  simp only [List.getElem?_map, hp] at hi
  obtain ⟨m, hm, heq⟩ := Option.map_eq_some_iff.mp hi.symm
  exact ⟨m, hm, congrArg Prod.fst heq, congrArg Prod.snd heq⟩

theorem Marked.exists_mark_of_mem (h : d.Marked tx) (hp : p ∈ tx.savepoints) :
    ∃ m ∈ d.savepoints, m.1 = p.name ∧ m.2.length = p.logLength := by
  obtain ⟨i, hi⟩ := List.mem_iff_getElem?.mp hp
  obtain ⟨m, hm, hname, hlength⟩ := h.exists_mark hi
  exact ⟨m, List.mem_of_getElem? hm, hname, hlength⟩

theorem Marked.names (h : d.Marked tx) :
    tx.savepoints.map Savepoint.name = d.savepoints.map Prod.fst := by
  have hnames := congrArg (List.map Prod.fst) h.same
  rwa [List.map_map, List.map_map] at hnames

theorem Marked.length_eq (h : d.Marked tx) : tx.savepoints.length = d.savepoints.length := by
  have hlengths := congrArg List.length h.same
  rwa [List.length_map, List.length_map] at hlengths

/-- No savepoint is after the end of the log. -/
theorem Marked.logLength_le (h : d.Marked tx) (hp : p ∈ tx.savepoints) :
    p.logLength ≤ d.changes.length := by
  obtain ⟨m, hm, -, hlength⟩ := h.exists_mark_of_mem hp
  rw [← hlength]
  exact (h.kept m hm).length_le

/-- No savepoint is set in the middle of a statement. -/
theorem Marked.logLength_le_start (h : d.Marked tx) (hin : d.InStatement tx)
    (hp : p ∈ tx.savepoints) : p.logLength ≤ tx.statementStart := by
  obtain ⟨m, hm, -, hlength⟩ := h.exists_mark_of_mem hp
  rw [← hlength, hin.start]
  exact (hin.marks m hm).length_le

/-- Savepoints are in the order of the log. -/
theorem Marked.logLength_mono (h : d.Marked tx) (hq : tx.savepoints[i]? = some q)
    (hp : p ∈ tx.savepoints.take (i + 1)) : p.logLength ≤ q.logLength := by
  obtain ⟨j, hj⟩ := List.mem_iff_getElem?.mp hp
  rw [List.getElem?_take] at hj
  split at hj
  next hlt =>
    obtain ⟨m, hm, -, hmark⟩ := h.exists_mark hj
    obtain ⟨n, hn, -, hlast⟩ := h.exists_mark hq
    rcases Nat.lt_or_eq_of_le (Nat.le_of_lt_succ hlt) with hbefore | heq
    · obtain ⟨hjlen, rfl⟩ := List.getElem?_eq_some_iff.mp hm
      obtain ⟨hilen, rfl⟩ := List.getElem?_eq_some_iff.mp hn
      rw [← hmark, ← hlast]
      exact (List.pairwise_iff_getElem.mp h.nested j i hjlen hilen hbefore).length_le
    · rw [heq, hq] at hj
      cases hj
      exact Nat.le_refl _
  next => cases hj

end Draft

namespace Coordinator

variable {c c' c₁ c₂ : Coordinator} {s y : SessionId} {r : LockRequest} {t : TableId}
  {now : Timestamp} {e : Option Event} {l : Ledger} {rows : List RowId} {i start : Nat} {row : Row}

/-- Rows are given back that are in the part of a log that is cut off, and not in what is left. -/
def Frees (gone left : List RowAction) (owners owners' : RowOwnership) : Prop :=
  ∃ rows, owners' = owners.release rows ∧
    ∀ row ∈ rows, (∃ a ∈ gone, a.row = row) ∧ ∀ a ∈ left, a.row ≠ row

/-- What a move of a session that sets no savepoint does to its log, to its savepoints and to the
rows that it owns: nothing; or an action is added, for a row that nobody else owns; or the log is cut
off, with the savepoints that do not fit it any more. When the transaction ends no savepoint stays. -/
inductive Turn (s : SessionId) (c c' : Coordinator) : Option Event → Prop where
  | stays {e : Option Event} (hwork : (c'.tx s).work = (c.tx s).work)
      (howners : c'.owners = c.owners) (hgoes : ∀ event ∈ e, event.ends s = false) : Turn s c c' e
  | adds {a : RowAction} {kind : AccessKind} (hkind : kind.isWrite = true)
      (hactions : (c'.tx s).actions = (c.tx s).actions ++ [a])
      (hsavepoints : (c'.tx s).savepoints = (c.tx s).savepoints)
      (hfree : ∀ y, c.owners.owner? a.row = some y → y = s)
      (howners : c'.owners = c.owners.claim s a.row) :
      Turn s c c' (some (.access ⟨s, a.store, kind⟩))
  | cuts {e : Option Event} {n k : Nat} (hactions : (c'.tx s).actions = (c.tx s).actions.take n)
      (hsavepoints : (c'.tx s).savepoints = (c.tx s).savepoints.take k)
      (hfits : ∀ p ∈ (c.tx s).savepoints.take k, p.logLength ≤ n)
      (hfrees : Frees ((c.tx s).actions.drop n) ((c.tx s).actions.take n) c.owners c'.owners)
      (hends : ∀ event ∈ e, event.ends s = true → k = 0) : Turn s c c' e

/-- A savepoint is set, and nothing else is done. -/
structure Marks (s : SessionId) (name : String) (c c' : Coordinator) : Prop where
  actions : (c'.tx s).actions = (c.tx s).actions
  savepoints : (c'.tx s).savepoints = ((c.tx s).setSavepoint name).savepoints
  owners : c'.owners = c.owners

theorem actions_of_work {tx tx' : SessionTx} (h : tx'.work = tx.work) : tx'.actions = tx.actions :=
  congrArg Prod.fst h

theorem turn_refl (hgoes : ∀ event ∈ e, event.ends s = false) : Turn s c c e := .stays rfl rfl hgoes

theorem turn_none : Turn s c c none := turn_refl nofun

theorem turn_of_quiet (hq : Quiet s c c') (howners : c'.owners = c.owners) : Turn s c c' none :=
  .stays hq.work howners nofun

theorem Turn.after (h : Turn s c₁ c' e) (hwork : (c₁.tx s).work = (c.tx s).work)
    (howners : c₁.owners = c.owners) : Turn s c c' e := by
  have hlog := actions_of_work hwork
  have hmarks := savepoints_of_work hwork
  cases h with
  | stays hsame hkept hgoes => exact .stays (hsame.trans hwork) (hkept.trans howners) hgoes
  | adds hkind hactions hsavepoints hfree hclaimed =>
    rw [hlog] at hactions
    rw [howners] at hfree hclaimed
    exact .adds hkind hactions (hsavepoints.trans hmarks) hfree hclaimed
  | cuts hactions hsavepoints hfits hfrees hends =>
    rw [hlog] at hactions hfrees
    rw [hmarks] at hsavepoints hfits
    rw [howners] at hfrees
    exact .cuts hactions hsavepoints hfits hfrees hends

theorem Turn.before (h : Turn s c c₁ e) (hwork : (c'.tx s).work = (c₁.tx s).work)
    (howners : c'.owners = c₁.owners) : Turn s c c' e := by
  have hlog := actions_of_work hwork
  have hmarks := savepoints_of_work hwork
  cases h with
  | stays hsame hkept hgoes => exact .stays (hwork.trans hsame) (howners.trans hkept) hgoes
  | adds hkind hactions hsavepoints hfree hclaimed =>
    exact .adds hkind (hlog.trans hactions) (hmarks.trans hsavepoints) hfree (howners.trans hclaimed)
  | cuts hactions hsavepoints hfits hfrees hends =>
    exact .cuts (hlog.trans hactions) (hmarks.trans hsavepoints) hfits (howners ▸ hfrees) hends

/-- The rows that an undo gives back are not in what is left of the log. -/
theorem of_mem_undoTo (h : Indexes (c.tx s).rowIndex (c.tx s).actions) {row : RowId}
    (hrow : row ∈ (c.undoTo s start now).1) :
    (∃ a ∈ (c.tx s).actions.drop start, a.row = row) ∧
      ∀ a ∈ (c.tx s).actions.take start, a.row ≠ row := by
  have hindexed := SessionTx.indexes_truncateActions h start
  unfold undoTo at hrow
  dsimp only at hrow
  rw [IdSet.mem_toList, IdSet.mem_filter, IdSet.mem_ofList, SessionTx.truncateActions_removed,
    SessionTx.hasRowActions, IdMap.contains_eq] at hrow
  obtain ⟨hgone, hnone⟩ := hrow
  refine ⟨List.mem_map.mp hgone, ?_⟩
  rw [← SessionTx.truncateActions_actions, ← hindexed.get?_eq_none]
  simpa using hnone

/-- The log is cut off, and rows without an action left are given back. -/
theorem turn_undone {k : Nat} (now : Timestamp) (h : Indexes (c.tx s).rowIndex (c.tx s).actions)
    (hactions : (c'.tx s).actions = (c.tx s).actions.take start)
    (hsavepoints : (c'.tx s).savepoints = (c.tx s).savepoints.take k)
    (hfits : ∀ p ∈ (c.tx s).savepoints.take k, p.logLength ≤ start)
    (howners : c'.owners = c.owners.release (c.undoTo s start now).1) : Turn s c c' none :=
  .cuts hactions hsavepoints hfits ⟨_, howners, fun _ hrow => of_mem_undoTo h hrow⟩ nofun

/-- Nothing is left of a log, and its rows are given back. -/
theorem turn_ended (rows : List RowId) (hactions : (c'.tx s).actions = []) (hsavepoints : (c'.tx s).savepoints = [])
    (howners : c'.owners = c.owners.release rows)
    (hrows : ∀ row ∈ rows, ∃ a ∈ (c.tx s).actions, a.row = row) : Turn s c c' e := by
  refine .cuts (n := 0) (k := 0) hactions hsavepoints nofun ⟨rows, howners, fun row hrow => ?_⟩
    fun _ _ _ => rfl
  exact ⟨hrows row hrow, nofun⟩

theorem actions_undoTo : ((c.undoTo s start now).2.tx s).actions = (c.tx s).actions.take start := by
  rw [tx_undoTo_self, SessionTx.truncateActions_actions]

theorem actions_rollbackStatement : ((c.rollbackStatement s).tx s).actions =
    (c.tx s).actions.take (c.tx s).statementStart :=
  (actions_of_work quiet_rest_of_rollbackStatement.work).trans actions_undoTo

theorem turn_rollbackStatement (h : Indexes (c.tx s).rowIndex (c.tx s).actions)
    (hfits : ∀ p ∈ (c.tx s).savepoints, p.logLength ≤ (c.tx s).statementStart) :
    Turn s c (c.rollbackStatement s) none := by
  have hall : (c.tx s).savepoints.take (c.tx s).savepoints.length = (c.tx s).savepoints :=
    List.take_length
  refine turn_undone (k := (c.tx s).savepoints.length) (c.tx s).actionAt h
    actions_rollbackStatement (savepoints_rollbackStatement.trans hall.symm) ?_ owners_endStatement
  rw [hall]
  exact hfits

theorem turn_rollback (h : Indexes (c.tx s).rowIndex (c.tx s).actions) :
    Turn s c (c.rollback s) e := by
  obtain ⟨rows, now, c₁, c₂, hbegun, hundo, heq⟩ := rollback_undone c s
  have hwork : (c₁.tx s).work = (c.tx s).work := by
    rw [hbegun]
    exact (quiet_signal.trans quiet_tick).work
  have howners : c₁.owners = c.owners := by
    rw [hbegun]
    rfl
  have hindexed : Indexes (c₁.tx s).rowIndex (c₁.tx s).actions := by
    have hindex : (c₁.tx s).rowIndex = (c.tx s).rowIndex := congrArg (fun work => work.2.1) hwork
    rw [hindex, actions_of_work hwork]
    exact h
  have hkept : (c₁.undoTo s 0 now).2.owners = c₁.owners := rfl
  have hrows (row : RowId) (hrow : row ∈ (c₁.undoTo s 0 now).1) : ∃ a ∈ (c₁.tx s).actions, a.row = row :=
    (of_mem_undoTo hindexed hrow).1
  rw [hundo] at hkept hrows
  refine Turn.after (turn_ended _ ?_ savepoints_rollback ?_ hrows) hwork howners
  · rw [heq, closeTx, tx_updateTx_self]
    rfl
  · rw [heq, closeTx_owners, signal_owners, owners_endTx, hkept]

/-- What is undone back to a savepoint: the log from there on, and the savepoints after it. -/
theorem rollbackToIndex_undone {q : Savepoint} (hq : (c.tx s).savepoints[i]? = some q) :
    (c.rollbackToIndex s i).1 = .ok () ∧
      ((c.rollbackToIndex s i).2.tx s).actions = (c.tx s).actions.take q.logLength ∧
      ((c.rollbackToIndex s i).2.tx s).savepoints = (c.tx s).savepoints.take (i + 1) ∧
      (c.rollbackToIndex s i).2.owners =
        c.owners.release (c.undoTo s q.logLength q.timestamp).1 := by
  have hcut : ((c.undoTo s q.logLength q.timestamp).2.updateTx s
      (·.truncateSavepoints (i + 1))).tx s =
        ((c.undoTo s q.logLength q.timestamp).2.tx s).truncateSavepoints (i + 1) := tx_updateTx_self
  have htx : (((c.undoTo s q.logLength q.timestamp).2.updateTx s
      (·.truncateSavepoints (i + 1))).releaseRows (c.undoTo s q.logLength q.timestamp).1).tx s =
        ((c.undoTo s q.logLength q.timestamp).2.tx s).truncateSavepoints (i + 1) := hcut
  unfold rollbackToIndex
  rw [hq]
  refine ⟨rfl, ?_, ?_, rfl⟩
  · rw [htx]
    exact actions_undoTo
  · rw [htx, SessionTx.truncateSavepoints, savepoints_undoTo]

theorem turn_rollbackToIndex (h : Indexes (c.tx s).rowIndex (c.tx s).actions)
    (hfits : ∀ q, (c.tx s).savepoints[i]? = some q →
      ∀ p ∈ (c.tx s).savepoints.take (i + 1), p.logLength ≤ q.logLength) :
    Turn s c (c.rollbackToIndex s i).2 none := by
  cases hq : (c.tx s).savepoints[i]? with
  | none =>
    have hrefused : (c.rollbackToIndex s i).2 = c := by
      unfold rollbackToIndex
      rw [hq]
    rw [hrefused]
    exact turn_none
  | some q =>
    obtain ⟨-, hactions, hsavepoints, howners⟩ := rollbackToIndex_undone hq
    exact turn_undone (k := i + 1) q.timestamp h hactions hsavepoints (hfits q hq) howners

theorem turn_commit (h : Indexes (c.tx s).rowIndex (c.tx s).actions) :
    Turn s c (c.commit s).2 (c.commitEvent? s) := by
  have hcommits := c.commit_commits s
  generalize c.commitEvent? s = e, (c.commit s).2 = c' at hcommits
  cases hcommits with
  | refused habort => exact turn_none
  | @failed f journal habort hlog => exact (turn_rollback (c := { c.tick.2 with journal }) h).after rfl rfl
  | @done journal habort hlog =>
    refine turn_ended (c.tx s).touchedRows ?_ ?_ ?_ fun row hrow => ?_
    · rw [closeTx, tx_updateTx_self]
      rfl
    · rw [closeTx, tx_updateTx_self]
      rfl
    · rw [closeTx_owners, owners_endTx]
      rfl
    · rw [SessionTx.touchedRows, IdMap.mem_keys, Option.isSome_iff_ne_none] at hrow
      by_contra hnone
      exact hrow (h.get?_eq_none.mpr fun a ha hsame => hnone ⟨a, ha, hsame⟩)

theorem turn_unregister (h : Indexes (c.tx s).rowIndex (c.tx s).actions) :
    Turn s c (c.unregister s) (c.rollbackEvent? s) := by
  have hleft (c₁ : Coordinator) (hturn : Turn s c c₁ (c.rollbackEvent? s)) : Turn s c
      { c₁.withdraw s with registered := (c₁.withdraw s).registered.erase s } (c.rollbackEvent? s) :=
    hturn.before (SessionTx.work_of_unlatched unlatched_withdraw) (owners_of_accounts withdraw_accounts)
  unfold unregister
  dsimp only
  split
  next => exact hleft _ (turn_rollback h)
  next hidle =>
    refine hleft c (turn_refl fun event hevent => ?_)
    unfold rollbackEvent? at hevent
    split at hevent
    next hopen =>
      rw [hopen] at hidle
      exact absurd rfl hidle
    next => cases hevent

/-- A row that is claimed is added to the log. -/
theorem turn_claim {storage : Storage} {trace : List TracedCall} {a : RowAction} (kind : AccessKind)
    (hkind : kind.isWrite = true) (hfree : ∀ y, c.owners.owner? a.row = some y → y = s) :
    Turn s c ({ c with storage, trace, owners := c.owners.claim s a.row }.updateTx s (·.pushAction a))
      (some (.access ⟨s, a.store, kind⟩)) := by
  have htx : ({ c with storage, trace, owners := c.owners.claim s a.row }.updateTx s
      (·.pushAction a)).tx s = (c.tx s).pushAction a := tx_updateTx_self
  refine .adds hkind ?_ ?_ hfree rfl
  · rw [htx]
    rfl
  · rw [htx]
    rfl

theorem turn_access {a : Access} (h : c' = c) : Turn s c c' (some (.access a)) := by
  subst h
  exact turn_refl fun event hevent => by
    cases hevent
    rfl

theorem turn_storage {storage : Storage} {trace : List TracedCall} {a : Access} :
    Turn s c { c with storage, trace } (some (.access a)) := by
  refine .stays rfl rfl fun event hevent => ?_
  cases hevent
  rfl

theorem turn_recordDelete :
    Turn s c (c.recordDelete s t row).2 (some (.access ⟨s, t, .delete⟩)) := by
  unfold recordDelete
  split
  next => exact turn_access rfl
  next hcheck =>
    split
    next => exact turn_storage
    next =>
      exact turn_claim (a := .delete s (c.tx s).actionAt t row ((c.tx s).insertedHere row.id))
        .delete rfl (RowOwnership.check_eq_ok.mp hcheck)

/-- The row that is allocated gets the next number. -/
theorem id_newRow {storage storage' : Storage} {values : List Value}
    (h : storage.newRow t values = (.ok row, storage')) : row.id = storage.nextRow := by
  unfold Storage.newRow at h
  split at h
  next => cases h
  next =>
    cases h
    rfl

theorem turn_insertRow {values : List Value} (hfresh : c.owners.owner? c.storage.nextRow = none) :
    Turn s c (c.insertRow s t t values).2 (some (.access ⟨s, t, .insert⟩)) := by
  unfold insertRow
  split
  next => exact turn_storage
  next row storage hnew =>
    have hid := id_newRow hnew
    have hrecord : Turn s c ({ c with storage }.recordInsert s t row).2
        (some (.access ⟨s, t, .insert⟩)) := by
      unfold recordInsert
      split
      next => exact turn_storage
      next =>
        refine turn_claim (a := .insert s (c.tx s).actionAt t row) .insert rfl fun y hy => ?_
        have howner : c.owners.owner? row.id = some y := hy
        rw [hid, hfresh] at howner
        cases howner
    generalize { c with storage }.recordInsert s t row = recorded at hrecord
    obtain ⟨answer, c₁⟩ := recorded
    cases answer <;> exact hrecord

theorem rollbackEvent?_ends {event : Event} (he : c.rollbackEvent? y = some event)
    (hends : event.ends s = true) : s = y := by
  unfold rollbackEvent? at he
  split at he
  next =>
    cases he
    exact (of_decide_eq_true hends).symm
  next => cases he

theorem commitEvent?_ends {event : Event} (he : c.commitEvent? y = some event)
    (hends : event.ends s = true) : s = y := by
  have hcommits := c.commit_commits y
  generalize c.commitEvent? y = e, (c.commit y).2 = c' at hcommits he
  cases hcommits with
  | refused habort => cases he
  | failed habort hlog => exact rollbackEvent?_ends he hends
  | done habort hlog =>
    split at he
    next =>
      cases he
      exact (of_decide_eq_true hends).symm
    next => cases he

end Coordinator

namespace Session

variable {s : SessionId} {c c₁ : Coordinator} {x x' : Session} {l : Ledger} {d : Draft}
  {t : TableId} {e : Option Event} {k : SessionCall}

theorem GoesOn.ends (he : GoesOn e) : ∀ event ∈ e, event.ends s = false := by
  intro event hevent
  obtain ⟨a, rfl⟩ := he event hevent
  rfl

theorem insert_turn {values : List Value} {next : Except Failure RowPosition → StatementBody}
    (hfresh : c.owners.owner? c.storage.nextRow = none) :
    Turn s c (c.insertInto s x.statement.request t values).2
      ((x.access? s c (.insert t values next)).map .access) := by
  unfold Coordinator.insertInto
  cases hwritable : c.writable x.statement.request t with
  | error f => exact turn_refl goesOn_map.ends
  | ok done =>
    have hevent : (x.access? s c (.insert t values next)).map .access =
        some (Event.access ⟨s, t, .insert⟩) := by
      rw [access?, hwritable]
      rfl
    have hinsert : Turn s c (c.insertRow s t t values).2 (some (.access ⟨s, t, .insert⟩)) :=
      turn_insertRow hfresh
    rw [hevent]
    dsimp only
    generalize c.insertRow s t t values = inserted at hinsert
    obtain ⟨answer, c₁⟩ := inserted
    cases answer <;> exact hinsert

theorem delete_turn {position : RowPosition} {next : Except Failure Unit → StatementBody} :
    Turn s c (c.deleteAt s x.statement.request t position).2
      ((x.access? s c (.delete t position next)).map .access) := by
  unfold Coordinator.deleteAt
  cases hwritable : c.writable x.statement.request t with
  | error f => exact turn_refl goesOn_map.ends
  | ok done =>
    have hevent : (x.access? s c (.delete t position next)).map .access =
        some (Event.access ⟨s, t, .delete⟩) := by
      rw [access?, hwritable]
      rfl
    rw [hevent]
    dsimp only
    split
    next => exact turn_access rfl
    next => exact turn_recordDelete

theorem runBody_turn (hfresh : c.owners.owner? c.storage.nextRow = none) (body : StatementBody) :
    Turn s c (x.runBody s c body).2 ((x.access? s c body).map .access) := by
  have hsignal (f : Signals → Signals) : Turn s c (c.signal s f) ((x.access? s c body).map .access) :=
    .stays quiet_signal.work rfl goesOn_map.ends
  cases body with
  | insert t values next => exact insert_turn hfresh
  | delete t position next => exact delete_turn
  | requestRedo next => exact hsignal _
  | raiseAbort next => exact hsignal _
  | deleteWhere t test next =>
    dsimp only [runBody]
    split <;> exact turn_refl goesOn_map.ends
  | _ => exact turn_refl goesOn_map.ends

/-- A statement is taken back from where it has started. -/
theorem Engaged.turn_rollbackStatement (h : c.InStep l) (hx : x.Engaged s c (l.draft s))
    (hactive : x.activity ≠ .idle) (hin : (l.draft s).InStatement (c.tx s)) (hq : Quiet s c c₁)
    (hstart : (c₁.tx s).statementStart = (c.tx s).statementStart) (howners : c₁.owners = c.owners) :
    Turn s c (c₁.rollbackStatement s) none := by
  have hmarked := hx.marked (hx.open hactive)
  have hindexed := ((h.carries s).of_quiet hq).indexed
  refine Turn.after (Coordinator.turn_rollbackStatement hindexed ?_) hq.work howners
  rw [savepoints_of_work hq.work, hstart]
  exact fun p hp => hmarked.logLength_le_start hin hp

theorem step_turn (h : c.InStep l) (hx : x.Engaged s c (l.draft s))
    (hfresh : c.owners.owner? c.storage.nextRow = none) :
    Turn s c (x.step s c).2 (x.observe s c) := by
  have hindexed := (h.carries s).indexed
  have hatWork := hx.atWork
  unfold AtWork at hatWork
  cases hactivity : x.activity with
  | idle =>
    simp only [step, observe, hactivity]
    exact turn_none
  | entering =>
    simp only [step, observe, hactivity]
    split <;> exact turn_none
  | acquiring =>
    have hbegins := c.beginStatement_begins s x.statement.request
    simp only [step, observe, hactivity]
    generalize c.beginStatement s x.statement.request = begun at hbegins
    obtain ⟨answer, c₁⟩ := begun
    have hturn := turn_of_quiet hbegins.quiet (owners_of_accounts hbegins.accounts)
    split
    all_goals
      next heq =>
        cases heq
        exact hturn
  | waiting =>
    simp only [step, observe, hactivity]
    split <;> exact turn_none
  | timedOut =>
    simp only [step, observe, hactivity]
    exact turn_of_quiet quiet_cancelWait owners_cancelWait
  | resuming =>
    have hturn : Turn s c (c.resumeStatement s).2 none :=
      turn_of_quiet quiet_resumeStatement owners_resumeStatement
    simp only [step, observe, hactivity]
    split
    next => exact turn_none
    next =>
      generalize c.resumeStatement s = resumed at hturn
      obtain ⟨answer, c₁⟩ := resumed
      cases answer <;> exact hturn
  | running body =>
    simp only [step, observe, hactivity]
    exact runBody_turn hfresh body
  | deleting t rows count next =>
    cases rows with
    | nil =>
      simp only [step, observe, hactivity]
      exact turn_none
    | cons row rows =>
      have hturn : Turn s c (c.recordDelete s t row).2 (some (.access ⟨s, t, .delete⟩)) :=
        turn_recordDelete
      simp only [step, observe, hactivity]
      generalize c.recordDelete s t row = deleted at hturn
      obtain ⟨answer, c₁⟩ := deleted
      cases answer <;> exact hturn
  | failing error =>
    simp only [hactivity] at hatWork
    simp only [step, observe, hactivity]
    exact hx.turn_rollbackStatement h (by simp [hactivity]) hatWork (.refl s c) rfl rfl
  | failed error =>
    simp only [step, observe, hactivity]
    split
    next => exact turn_none
    next => split <;> exact turn_none
  | finishing result =>
    simp only [hactivity] at hatWork
    have htaken : Quiet s c (c.signal s fun _ => (c.tx s).signals.takeRedo.2) := quiet_signal
    simp only [step, observe, hactivity]
    split
    next =>
      refine hx.turn_rollbackStatement h (by simp [hactivity]) hatWork htaken ?_ rfl
      rw [tx_signal_self]
    next => exact turn_of_quiet (htaken.trans quiet_completeStatement) owners_endStatement
  | finished result =>
    simp only [step, observe, hactivity]
    split
    next => exact turn_none
    next => split <;> exact turn_none
  | committing autocommit answer =>
    have hturn : Turn s c (c.commit s).2 (c.commitEvent? s) := turn_commit hindexed
    simp only [step, observe, hactivity]
    generalize c.commit s = committed at hturn
    obtain ⟨result, c₁⟩ := committed
    split
    all_goals
      next heq =>
        cases heq
        exact hturn
  | rollingBack reply =>
    simp only [step, observe, hactivity]
    exact turn_rollback hindexed

/-- A rollback to a savepoint is written down if it succeeds. -/
theorem undone_turn {undone : Except Failure Unit × Coordinator} {sql : String}
    (h : Turn s c undone.2 none) : Turn s c
      (match undone with
        | (.error f, c) => (x.finish (.error f), c)
        | (.ok (), c) => (x.finish (.ok .done), c.noteStatement s sql)).2 none := by
  obtain ⟨answer, c₁⟩ := undone
  cases answer with
  | error f => exact h
  | ok done => exact h.before rfl rfl

theorem marks_savepoint {name : String} :
    Marks s name c (x.callOpen s c (.savepoint name)).2 := by
  have htx : (c.updateTx s (·.setSavepoint name)).tx s = (c.tx s).setSavepoint name :=
    tx_updateTx_self
  have hmarks : Marks s name c (c.updateTx s (·.setSavepoint name)) := by
    refine ⟨?_, congrArg SessionTx.savepoints htx, rfl⟩
    rw [htx]
    rfl
  exact ⟨hmarks.actions, hmarks.savepoints, rfl⟩

theorem callOpen_turn (h : c.InStep l) (hmarked : (l.draft s).Marked (c.tx s))
    (hclosed : x.closed = false) (k : SessionCall) :
    Turn s c (x.callOpen s c k).2 (x.callEvent? s c k) ∨
      ∃ name, k = .savepoint name ∧ Marks s name c (x.callOpen s c k).2 := by
  have hindexed := (h.carries s).indexed
  have hlength := (h.carries s).logged.length_eq
  have hback (i : Nat) : Turn s c (c.rollbackToIndex s i).2 none :=
    turn_rollbackToIndex hindexed fun _ hq _ hp => hmarked.logLength_mono hq hp
  have hset {tx : SessionTx} (hwork : tx.work = (c.tx s).work) : Turn s c (c.setTx s tx) none := by
    refine .stays ?_ rfl goesOn_none.ends
    rw [tx_setTx_self]
    exact hwork
  cases k with
  | savepoint name => exact .inr ⟨name, rfl, marks_savepoint⟩
  | begin => exact .inl (turn_of_quiet quiet_beginTransaction owners_beginTransaction)
  | prepare =>
    left
    have hprepared : Turn s c (c.prepare s).2 none := turn_of_quiet quiet_prepare owners_prepare
    dsimp only [callOpen, callEvent?]
    generalize c.prepare s = prepared at hprepared
    obtain ⟨answer, c₁⟩ := prepared
    cases answer <;> exact hprepared
  | rollback =>
    left
    dsimp only [callOpen, callEvent?]
    split
    next => exact turn_of_quiet quiet_noteStatement rfl
    next => exact turn_none
  | rollbackTo name =>
    have hundone : Turn s c (c.rollbackToSavepoint s name).2 none := by
      unfold Coordinator.rollbackToSavepoint
      split
      next => exact turn_none
      next i _ => exact hback i
    exact .inl (undone_turn hundone)
  | rollbackToFirst => exact .inl (undone_turn (hback 0))
  | release name =>
    left
    dsimp only [callOpen, callEvent?]
    split
    next => exact turn_none
    next i _ =>
      have htx : (c.updateTx s (·.truncateSavepoints i)).tx s = (c.tx s).truncateSavepoints i :=
        tx_updateTx_self
      refine .cuts (n := (c.tx s).actions.length) (k := i) ?_ ?_ (fun p hp => ?_)
        ⟨[], rfl, List.forall_mem_nil _⟩ fun event hevent => absurd hevent (Option.not_mem_none event)
      · rw [htx, List.take_length]
        rfl
      · rw [htx]
        rfl
      · rw [hlength]
        exact hmarked.logLength_le (List.mem_of_mem_take hp)
  | setAutocommit on =>
    left
    dsimp only [callOpen, callEvent?]
    split <;> exact turn_none
  | setIsolation level =>
    left
    dsimp only [callOpen, callEvent?, SessionTx.setIsolation]
    split
    next => exact turn_none
    next => exact hset rfl
  | setReadOnly on =>
    left
    dsimp only [callOpen, callEvent?, SessionTx.setReadOnly]
    split
    next => exact turn_none
    next => exact hset rfl
  | setIsolationDefault level => exact .inl (hset rfl)
  | setReadOnlyDefault on => exact .inl (hset rfl)
  | execute statement =>
    left
    dsimp only [callOpen, callEvent?]
    split <;> exact turn_none
  | close =>
    left
    simp only [callOpen, callEvent?, close, hclosed, Bool.false_eq_true, if_false]
    exact turn_unregister hindexed
  | _ => exact .inl (turn_none)

theorem call_turn (h : c.InStep l) (hx : x.Engaged s c (l.draft s)) (k : SessionCall) :
    Turn s c (x.call s c k).2 (x.callEvent? s c k) ∨
      x.closed = false ∧ ∃ name, k = .savepoint name ∧ Marks s name c (x.call s c k).2 := by
  by_cases hclosed : x.closed = true
  · obtain ⟨timeout, reply, hcall⟩ := call_of_closed (s := s) (c := c) hclosed k
    have hnone : x.callEvent? s c k = none := by
      cases k with
      | close => exact if_pos hclosed
      | _ => rfl
    rw [hcall, hnone]
    exact .inl (turn_none)
  · have hopen := Bool.eq_false_iff.mpr hclosed
    have hturn := callOpen_turn (x := { x with reply := none, runs := 0 }) h (hx.marked hopen) hopen k
    rw [call_of_open hopen]
    exact hturn.imp id fun hmarks => ⟨hopen, hmarks⟩

end Session

namespace Database

variable {db : Database} {s y : SessionId} {m : Move} {e : Option Event} {c' : Coordinator}
  {l : Ledger} {moves : List Move}

/-- What a session does when it makes a move, and what is seen of it: nothing, a step, or the start
of a call. -/
inductive Does (db : Database) (m : Move) (y : SessionId) : Option Event → Coordinator → Prop where
  | nothing : Does db m y none db.coordinator
  | step {x : Session} (hx : db.sessions.get? y = some x) :
      Does db m y (x.observe y db.coordinator) (x.step y db.coordinator).2
  | call {x : Session} (hx : db.sessions.get? y = some x) (hidle : x.isIdle = true) {k : SessionCall}
      (hk : m = .call y k ∨ k = .close) :
      Does db m y (x.callEvent? y db.coordinator k) (x.call y db.coordinator k).2

theorem coordinator_drop : (db.drop y).coordinator =
    (db.withSession y fun x c => if x.isIdle then x.close y c else (x, c)).coordinator := by
  unfold Database.drop
  dsimp only
  split
  next => split <;> rfl
  next => rfl

theorem coordinator_close {x : Session} {c : Coordinator} :
    (x.call y c .close).2 = (x.close y c).2 := by
  unfold Session.call Session.callOpen Session.close
  cases x.closed <;> rfl

theorem does_of_mover (db : Database) (hm : m.mover? = some y) :
    db.Does m y (db.observe m) (db.perform m).coordinator := by
  cases m with
  | advance z =>
    cases hm
    show db.Does _ y ((db.sessions.get? y).bind fun x => x.observe y db.coordinator)
      (db.withSession y fun x c => x.step y c).coordinator
    unfold Database.withSession
    cases hx : db.sessions.get? y with
    | none => exact .nothing
    | some x => exact .step hx
  | call z k =>
    cases hm
    show db.Does _ y (db.callEvent? y k)
      (db.withSession y fun x c => if x.isIdle then x.call y c k else (x, c)).coordinator
    unfold Database.withSession Database.callEvent?
    cases hx : db.sessions.get? y with
    | none => exact .nothing
    | some x =>
      dsimp only [Option.bind_some]
      split
      next hidle => exact .call hx hidle (.inl rfl)
      next => exact .nothing
  | drop z =>
    cases hm
    show db.Does _ y (db.callEvent? y .close) (db.drop y).coordinator
    rw [coordinator_drop]
    unfold Database.withSession Database.callEvent?
    cases hx : db.sessions.get? y with
    | none => exact .nothing
    | some x =>
      dsimp only [Option.bind_some]
      split
      next hidle =>
        have hdone : db.Does (.drop y) y _ _ := .call hx hidle (k := .close) (.inr rfl)
        rw [coordinator_close] at hdone
        exact hdone
      next => exact .nothing
  | _ => cases hm

/-- A transaction ends by a move of its own session. -/
theorem observe_ends {event : Event} (he : event ∈ db.observe m) (hends : event.ends s = true) :
    m.mover? = some s := by
  have hend (y : SessionId) (hm : m.mover? = some y) : s = y := by
    have hdoes := does_of_mover db hm
    generalize db.observe m = e, (db.perform m).coordinator = c' at hdoes he
    cases hdoes with
    | nothing => cases he
    | @step x hx =>
      unfold Session.observe at he
      split at he
      next =>
        obtain ⟨a, -, rfl⟩ := Option.map_eq_some_iff.mp he
        cases hends
      next =>
        cases he
        cases hends
      next => exact commitEvent?_ends he hends
      next => exact rollbackEvent?_ends he hends
      next => cases he
    | @call x hx hidle k hk =>
      cases k with
      | close =>
        by_cases hclosed : x.closed = true
        · rw [show x.callEvent? y db.coordinator .close = none from if_pos hclosed] at he
          cases he
        · have hrolled : x.callEvent? y db.coordinator .close = db.coordinator.rollbackEvent? y :=
            if_neg hclosed
          rw [hrolled] at he
          exact rollbackEvent?_ends he hends
      | _ => cases he
  cases m with
  | advance y => rw [hend y rfl, Move.mover?]
  | call y k => rw [hend y rfl, Move.mover?]
  | drop y => rw [hend y rfl, Move.mover?]
  | _ => cases he

/-- The move sets a savepoint of the name in the session. -/
def sets (db : Database) (s : SessionId) (name : String) : Move → Bool
  | .call y (.savepoint other) => y == s && other == name &&
      (db.sessions.get? s).any fun x => x.isIdle && !x.closed
  | _ => false

/-- Only closing a session ends a transaction at once. -/
theorem observe_call {k : SessionCall} (hk : k ≠ .close) : db.observe (.call s k) = none := by
  show db.callEvent? s k = none
  unfold Database.callEvent?
  cases db.sessions.get? s with
  | none => rfl
  | some x =>
    dsimp only [Option.bind_some]
    split
    next =>
      cases k with
      | close => exact absurd rfl hk
      | _ => rfl
    next => rfl

theorem observe_of_sets {name : String} (h : db.sets s name m = true) : db.observe m = none := by
  cases m with
  | call y k =>
    refine observe_call ?_
    rintro rfl
    cases h
  | _ => cases h

/-- Whatever a session does is a turn of its log, or sets a savepoint. -/
theorem Faithful.turn (hf : db.Faithful l)
    (hfresh : db.coordinator.owners.owner? db.coordinator.storage.nextRow = none)
    (hm : m.mover? = some s) :
    Turn s db.coordinator (db.perform m).coordinator (db.observe m) ∨ ∃ name,
      db.sets s name m = true ∧ Marks s name db.coordinator (db.perform m).coordinator := by
  have hdoes := does_of_mover db hm
  generalize db.observe m = e, (db.perform m).coordinator = c' at hdoes
  cases hdoes with
  | nothing => exact .inl (turn_none)
  | step hx => exact .inl (step_turn hf.inStep (hf.engaged s _ hx) hfresh)
  | @call x hx hidle k hk =>
    refine (call_turn hf.inStep (hf.engaged s x hx) k).imp id ?_
    rintro ⟨hopen, name, rfl, hmarks⟩
    obtain rfl := hk.resolve_right nofun
    exact ⟨name, by simp [sets, hx, hidle, hopen], hmarks⟩

/-- A session that makes a move leaves the others alone. -/
theorem Standing.spares_other (h : db.Standing) (hm : m.mover? = some y) (hs : s ≠ y) :
    Spares s db.coordinator (db.perform m).coordinator := by
  cases m with
  | advance z =>
    cases hm
    exact (h.advance y).others s hs
  | call z k =>
    cases hm
    exact (h.call y k).others s hs
  | drop z =>
    cases hm
    exact (h.drop y).others s hs
  | _ => cases hm

theorem owners_of_no_mover (hm : m.mover? = none) :
    (db.perform m).coordinator.owners = db.coordinator.owners := by
  cases m with
  | expire z => exact congrArg Coordinator.owners coordinator_expire
  | call z k => cases hm
  | advance z => cases hm
  | drop z => cases hm
  | _ => rfl

/-- Only its own moves change the transaction of a session that has begun, apart from signals. -/
theorem Standing.tx_of_other (h : db.Standing) (hm : m.mover? ≠ some s) :
    (∃ signals, (db.perform m).coordinator.tx s = { db.coordinator.tx s with signals }) ∨
      s = db.coordinator.nextSession ∧ ∃ level, (db.perform m).coordinator.tx s = .fresh s level := by
  cases hmover : m.mover? with
  | some y =>
    have hy : s ≠ y := by
      rintro rfl
      exact hm hmover
    exact .inl ⟨_, SessionTx.eq_of_unlatched (h.spares_other hmover hy).tx⟩
  | none =>
    cases m with
    | connect =>
      by_cases hs : s = db.coordinator.nextSession
      · subst hs
        exact .inr ⟨rfl, _, tx_setTx_self⟩
      · exact .inl ⟨_, tx_setTx_of_ne hs⟩
    | raiseAbort y =>
      by_cases hy : s = y
      · subst hy
        exact .inl ⟨_, tx_signal_self⟩
      · exact .inl ⟨_, tx_setTx_of_ne hy⟩
    | expire y => exact .inl ⟨_, congrArg (fun c : Coordinator => c.tx s) coordinator_expire⟩
    | createTable name watched => exact .inl ⟨_, rfl⟩
    | checkpoint => exact .inl ⟨_, rfl⟩
    | outside storage journal => exact .inl ⟨_, rfl⟩
    | _ => cases hmover

/-- The log of a session is changed by its own moves only. -/
theorem Standing.actions_of_other (h : db.Standing) (hm : m.mover? ≠ some s) :
    ((db.perform m).coordinator.tx s).actions = (db.coordinator.tx s).actions := by
  rcases h.tx_of_other hm with ⟨signals, htx⟩ | ⟨rfl, level, htx⟩
  · rw [htx]
  · -- A number that is still to be given to a session has no log.
    rw [htx, h.actions_of_closed (h.gone _ h.nobody).2]
    rfl

end Database

end LockingDb
