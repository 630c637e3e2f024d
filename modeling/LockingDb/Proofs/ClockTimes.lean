import LockingDb.Proofs.Books
import LockingDb.Proofs.NoMissedGrant
import Mathlib.Data.List.TakeDrop

namespace LockingDb

/-- What a session state says about times: those of the transaction, and those of the actions and
the savepoints in its log. -/
structure TxTimes where
  isOpen : Bool
  beganAt : Timestamp
  actionAt : Timestamp
  endedAt : Timestamp
  actions : List Timestamp
  savepoints : List Timestamp

def SessionTx.times (tx : SessionTx) : TxTimes where
  isOpen := tx.isOpen
  beganAt := tx.beganAt
  actionAt := tx.actionAt
  endedAt := tx.endedAt
  actions := tx.actions.map RowAction.timestamp
  savepoints := tx.savepoints.map Savepoint.timestamp

theorem SessionTx.times_of_unlatched {tx tx' : SessionTx} (h : tx'.unlatched = tx.unlatched) :
    tx'.times = tx.times := by
  have hsame : tx'.unlatched.times = tx.unlatched.times := congrArg times h
  exact hsame

namespace TxTimes

variable {t t' : TxTimes} {p : Prop} {given : List Timestamp} {now later u : Timestamp}

/-- The session has had no transaction yet. -/
def fresh : TxTimes := ⟨false, 0, 0, 0, [], []⟩

/-- The transaction has ended. -/
def ended (t : TxTimes) (now : Timestamp) : TxTimes := ⟨false, t.beganAt, now, now, [], []⟩

def all (t : TxTimes) : List Timestamp :=
  t.beganAt :: t.actionAt :: t.endedAt :: (t.actions ++ t.savepoints)

/-- What a call does to the times of a session, if the clock gives out the times `given` to it. An
action may be recorded while no transaction is open, unless the calls are in order. -/
inductive Elapses (inOrder : Prop) (t : TxTimes) : List Timestamp → TxTimes → Prop where
  | stays : Elapses inOrder t [] t
  | starts : Elapses inOrder t [] fresh
  | opens {now : Timestamp} (hclosed : t.isOpen = false) :
      Elapses inOrder t [now] { t with isOpen := true, beganAt := now, actionAt := now }
  | moves {now : Timestamp} : Elapses inOrder t [now] { t with actionAt := now }
  | records (hopen : inOrder → t.isOpen = true) :
      Elapses inOrder t [] { t with actions := t.actions ++ [t.actionAt] }
  | cuts {n m : Nat} : Elapses inOrder t []
      { t with actions := t.actions.take n, savepoints := t.savepoints.take m }
  | saves {kept : List Timestamp} (hkept : ∀ u ∈ kept, u = t.actionAt ∨ u ∈ t.savepoints) :
      Elapses inOrder t [] { t with savepoints := kept }
  | ends {now : Timestamp} : Elapses inOrder t [now] (t.ended now)
  | fails {now later : Timestamp} : Elapses inOrder t [now, later] (t.ended later)

theorem mem_all : u ∈ t.all ↔ u = t.beganAt ∨ u = t.actionAt ∨ u = t.endedAt ∨
    u ∈ t.actions ∨ u ∈ t.savepoints := by
  simp [all]

/-- A session has no times but those that the clock gave out to it. -/
theorem Elapses.mem_all (h : Elapses p t given t') (hu : u ∈ t'.all) :
    u = 0 ∨ u ∈ t.all ∨ u ∈ given := by
  rw [TxTimes.mem_all] at hu ⊢
  cases h with
  | stays => exact Or.inr (Or.inl hu)
  | starts =>
    simp only [fresh, List.not_mem_nil, or_false, or_self] at hu
    exact Or.inl hu
  | opens hclosed =>
    dsimp only at hu
    simp only [List.mem_singleton]
    tauto
  | moves =>
    dsimp only at hu
    simp only [List.mem_singleton]
    tauto
  | records hopen =>
    simp only [List.mem_append, List.mem_singleton] at hu
    tauto
  | @cuts n m =>
    have hactions : u ∈ t.actions.take n → u ∈ t.actions := List.mem_of_mem_take
    have hsavepoints : u ∈ t.savepoints.take m → u ∈ t.savepoints := List.mem_of_mem_take
    dsimp only at hu
    tauto
  | saves hkept =>
    have hsaved := hkept u
    dsimp only at hu
    tauto
  | ends =>
    simp only [ended, List.not_mem_nil, or_false, or_self] at hu
    simp only [List.mem_singleton]
    tauto
  | fails =>
    simp only [ended, List.not_mem_nil, or_false, or_self] at hu
    simp only [List.mem_cons]
    tauto

/-- While a transaction stays open, the time at which it began stays as it is. -/
theorem Elapses.beganAt (h : Elapses p t given t') (hopen : t.isOpen = true)
    (hstill : t'.isOpen = true) : t'.beganAt = t.beganAt := by
  cases h with
  | opens hclosed =>
    rw [hopen] at hclosed
    cases hclosed
  | starts => cases hstill
  | _ => rfl

end TxTimes

def LogRecord.commitTime? : LogRecord → Option Timestamp
  | .commit _ now => some now
  | _ => none

/-- The times of the commits in the log. -/
def Journal.commitTimes (j : Journal) : List Timestamp := j.records.filterMap LogRecord.commitTime?

namespace Coordinator

/-- The time of the commit of a session, if its log is written. -/
def commitTime? (c : Coordinator) (s : SessionId) : Option Timestamp :=
  if c.abortRequested s then none
  else
    match persist s c.tick.1 (c.tx s).actions c.storage c.journal with
    | (.error _, _) => none
    | (.ok (), _) => some c.tick.1

/-- The times that the clock gives out to the session that makes a call. A commit that fails is
followed by a rollback, which takes a time of its own. -/
def given (c : Coordinator) : CoordinatorCall → List Timestamp
  | .beginTransaction s => if (c.tx s).isOpen then [] else [c.tick.1]
  | .resumeStatement s | .prepare s => if c.abortRequested s then [] else [c.tick.1]
  | .commit s =>
    if c.abortRequested s then []
    else if (c.commitTime? s).isSome then [c.tick.1]
    else [c.tick.1, c.tick.2.tick.1]
  | .rollback _ => [c.tick.1]
  | .unregister s => if (c.tx s).isOpen || !(c.locks.locksOf s).isEmpty then [c.tick.1] else []
  | _ => []

/-- The times given out by a call, with the session that gets them. -/
def handsOut (c : Coordinator) (k : CoordinatorCall) : List (SessionId × Timestamp) :=
  k.caller?.toList.flatMap fun s => (c.given k).map fun u => (s, u)

def handedOut (c : Coordinator) : List CoordinatorCall → List (SessionId × Timestamp)
  | [] => []
  | k :: rest => c.handsOut k ++ (c.perform k).handedOut rest

/-- Actions are recorded only while the transaction is open, and nobody else commits. -/
def InOrder (c : Coordinator) : CoordinatorCall → Prop
  | .recordInsert s _ _ | .recordDelete s _ _ => (c.tx s).isOpen = true
  | .outside _ journal => journal.commitTimes = c.journal.commitTimes
  | _ => True

instance (c : Coordinator) : (k : CoordinatorCall) → Decidable (c.InOrder k)
  | .recordInsert s _ _ | .recordDelete s _ _ =>
    inferInstanceAs (Decidable ((c.tx s).isOpen = true))
  | .outside _ journal =>
    inferInstanceAs (Decidable (journal.commitTimes = c.journal.commitTimes))
  | .register _ | .unregister _ | .beginTransaction _ | .beginStatement _ _ | .resumeStatement _
  | .cancelWait _ | .completeStatement _ | .rollbackStatement _ | .prepare _ | .commit _
  | .rollback _ | .rollbackToIndex _ _ | .rollbackToSavepoint _ _ | .change _ _ =>
    inferInstanceAs (Decidable True)

variable {c c' c₂ : Coordinator} {s x : SessionId} {r : LockRequest} {now u : Timestamp} {p : Prop}
  {answer : Except Failure LockAnswer} {given : List Timestamp} {k : CoordinatorCall}

/-- Neither the clock moves nor do the times of the session. -/
structure Still (s : SessionId) (c c' : Coordinator) : Prop where
  clock : c'.clock = c.clock
  times : (c'.tx s).times = (c.tx s).times

theorem Still.trans (h : Still s c c') (h₂ : Still s c' c₂) : Still s c c₂ :=
  ⟨h₂.clock.trans h.clock, h₂.times.trans h.times⟩

theorem still_of_unlatched (hclock : c'.clock = c.clock)
    (h : (c'.tx s).unlatched = (c.tx s).unlatched) : Still s c c' :=
  ⟨hclock, SessionTx.times_of_unlatched h⟩

theorem still_updateTx {f : SessionTx → SessionTx} (h : (f (c.tx s)).times = (c.tx s).times) :
    Still s c (c.updateTx s f) := by
  refine ⟨rfl, ?_⟩
  rw [tx_updateTx_self]
  exact h

theorem clock_promote : c.promote.clock = c.clock := congrArg Prod.fst promote_roster

theorem still_withdraw : Still s c (c.withdraw x) := by
  refine still_of_unlatched ?_ unlatched_withdraw
  unfold withdraw
  dsimp only
  split
  next => exact clock_promote
  next => rfl

theorem still_releaseLocks : Still s c (c.releaseLocks x) := by
  refine still_of_unlatched ?_ unlatched_releaseLocks
  unfold releaseLocks
  dsimp only
  split
  next => exact clock_promote
  next => rfl

theorem still_endTx {rows : List RowId} : Still s c (c.endTx x rows) := by
  have hcounted : Still s c (if ((c.releaseRows rows).tx x).isOpen
      then { c.releaseRows rows with openCount := (c.releaseRows rows).openCount - 1 }
      else c.releaseRows rows) := by
    split <;> exact ⟨rfl, rfl⟩
  exact hcounted.trans still_releaseLocks

theorem still_dropReads {tables : List TableId} : Still s c (c.dropReads x tables) := by
  refine still_of_unlatched ?_ unlatched_dropReads
  unfold dropReads
  dsimp only
  split
  next => exact clock_promote
  next => rfl

theorem still_endStatement : Still s c (c.endStatement s) := by
  have hclear : Still s c (c.updateTx s ({ · with request := none })) := still_updateTx rfl
  unfold endStatement
  dsimp only
  split
  next => exact hclear
  next =>
    split
    next => exact hclear
    next r _ =>
      split
      next => exact hclear
      next =>
        have hdropped : Still s c ((c.setTx s { c.tx s with request := none }).dropReads s
          r.reads.toList) := hclear.trans still_dropReads
        exact hdropped.trans (still_updateTx rfl)

theorem Begins.still (hb : Begins c s r answer c') : Still s c c' := by
  obtain ⟨signals, granted, htx⟩ := hb.tx_eq
  refine ⟨?_, ?_⟩
  · cases hb with
    | refused habort hv => exact clock_promote
    | _ => rfl
  · rw [htx]
    rfl

/-- The clock gives out these times, one after another, and the session takes them. -/
structure Passes (inOrder : Prop) (s : SessionId) (c : Coordinator) (given : List Timestamp)
    (c' : Coordinator) : Prop where
  clock : c'.clock.current = c.clock.current + given.length
  consecutive : given = List.range' (c.clock.current + 1) given.length
  times : (c.tx s).times.Elapses inOrder given (c'.tx s).times

theorem Still.passes (h : Still s c c') : Passes p s c [] c' := by
  refine ⟨?_, rfl, ?_⟩
  · rw [h.clock]
    rfl
  · rw [h.times]
    exact .stays

theorem Passes.still (h : Passes p s c given c') (h₂ : Still s c' c₂) : Passes p s c given c₂ := by
  refine ⟨?_, h.consecutive, ?_⟩
  · rw [h₂.clock]
    exact h.clock
  · rw [h₂.times]
    exact h.times

theorem passes_nothing : Passes p s c [] c := (⟨rfl, rfl⟩ : Still s c c).passes

theorem passes_ticked (hclock : c'.clock = c.tick.2.clock)
    (htimes : (c.tx s).times.Elapses p [c.tick.1] (c'.tx s).times) :
    Passes p s c [c.tick.1] c' := by
  refine ⟨?_, rfl, htimes⟩
  rw [hclock]
  rfl

theorem times_openTx : ((c.openTx s now).tx s).times =
    { (c.tx s).times with isOpen := true, beganAt := now, actionAt := now } := by
  rw [openTx, tx_updateTx_self]
  rfl

theorem passes_openTx (hclosed : ¬(c.tx s).isOpen = true) :
    Passes p s c [c.tick.1] (c.tick.2.openTx s c.tick.1) := by
  refine passes_ticked rfl ?_
  rw [times_openTx]
  exact .opens (Bool.eq_false_iff.mpr hclosed)

theorem passes_moved : Passes p s c [c.tick.1] (c.tick.2.updateTx s ({ · with actionAt := c.tick.1 })) := by
  refine passes_ticked rfl ?_
  rw [tx_updateTx_self]
  exact .moves

theorem passes_beginTransaction :
    Passes p s c (c.given (.beginTransaction s)) (c.beginTransaction s) := by
  unfold Coordinator.given beginTransaction
  dsimp only
  split
  next => exact passes_nothing
  next hclosed => exact passes_openTx hclosed

theorem passes_resumeStatement :
    Passes p s c (c.given (.resumeStatement s)) (c.resumeStatement s).2 := by
  unfold Coordinator.given resumeStatement
  dsimp only
  split
  next => exact passes_nothing
  next =>
    split
    next => exact passes_moved
    next hclosed => exact passes_openTx hclosed

theorem passes_prepare : Passes p s c (c.given (.prepare s)) (c.prepare s).2 := by
  unfold Coordinator.given prepare
  dsimp only
  split
  next => exact passes_nothing
  next => exact passes_moved

theorem still_cancelWait : Still s c (c.cancelWait s) := by
  have hleft : Still s c (c.withdraw s) := still_withdraw
  unfold cancelWait signal
  exact hleft.trans (still_updateTx rfl)

theorem still_completeStatement : Still s c (c.completeStatement s) := by
  have hstart : Still s c
      (c.updateTx s fun tx => { tx with statementStart := tx.actions.length }) := still_updateTx rfl
  exact hstart.trans still_endStatement

theorem times_truncateActions (tx : SessionTx) (start : Nat) :
    (tx.truncateActions start).2.times =
      { tx.times with
        actions := tx.times.actions.take start
        savepoints := tx.times.savepoints.take tx.times.savepoints.length } := by
  unfold SessionTx.truncateActions
  split
  next hshort => simp [SessionTx.times, ← List.map_take, List.take_of_length_le hshort]
  next => simp [SessionTx.times, List.map_take]

/-- Some of the last actions of a session go, and some of its last savepoints. -/
theorem times_undoTo {start : Nat} : ((c.undoTo s start now).2.tx s).times =
    { (c.tx s).times with
      actions := (c.tx s).times.actions.take start
      savepoints := (c.tx s).times.savepoints.take (c.tx s).times.savepoints.length } := by
  rw [tx_undoTo_self, times_truncateActions]

theorem passes_undoTo {start : Nat} : Passes p s c [] (c.undoTo s start now).2 := by
  refine ⟨rfl, rfl, ?_⟩
  rw [times_undoTo]
  exact .cuts

theorem passes_rollbackStatement : Passes p s c [] (c.rollbackStatement s) := by
  have hundone : Passes p s c [] (c.undoTo s (c.tx s).statementStart (c.tx s).actionAt).2 :=
    passes_undoTo
  unfold rollbackStatement
  dsimp only
  refine Passes.still (hundone.still ?_) still_endStatement
  exact ⟨rfl, rfl⟩

theorem passes_rollbackToIndex {i : Nat} : Passes p s c [] (c.rollbackToIndex s i).2 := by
  unfold rollbackToIndex
  split
  next => exact passes_nothing
  next savepoint _ =>
    have hcut : ((c.undoTo s savepoint.logLength savepoint.timestamp).2.updateTx s
        (·.truncateSavepoints (i + 1))).tx s =
        (((c.tx s).truncateActions savepoint.logLength).2).truncateSavepoints (i + 1) := by
      rw [tx_updateTx_self, tx_undoTo_self]
    have htimes (tx : SessionTx) : (tx.truncateSavepoints (i + 1)).times =
        { tx.times with savepoints := tx.times.savepoints.take (i + 1) } := by
      simp [SessionTx.times, SessionTx.truncateSavepoints, List.map_take]
    have hpasses : Passes p s c [] ((c.undoTo s savepoint.logLength savepoint.timestamp).2.updateTx s
        (·.truncateSavepoints (i + 1))) := by
      refine ⟨rfl, rfl, ?_⟩
      rw [hcut, htimes, times_truncateActions]
      simp only [List.take_length]
      exact .cuts
    exact hpasses.still ⟨rfl, rfl⟩

theorem passes_rollbackToSavepoint {name : String} :
    Passes p s c [] (c.rollbackToSavepoint s name).2 := by
  unfold rollbackToSavepoint
  split
  next => exact passes_nothing
  next => exact passes_rollbackToIndex

section Rows

variable {store : TableId} {row : Row}

theorem passes_pushAction {a : RowAction} {storage : Storage} {owners : RowOwnership}
    (ha : a.timestamp = (c.tx s).actionAt) (hopen : p → (c.tx s).isOpen = true) :
    Passes p s c [] ({ c.withCalls s storage with owners }.updateTx s (·.pushAction a)) := by
  have hpushed : ((c.tx s).pushAction a).times =
      { (c.tx s).times with actions := (c.tx s).times.actions ++ [(c.tx s).times.actionAt] } := by
    simp [SessionTx.times, SessionTx.pushAction, ha]
  refine ⟨rfl, rfl, ?_⟩
  rw [tx_updateTx_self]
  show (c.tx s).times.Elapses p [] ((c.tx s).pushAction a).times
  rw [hpushed]
  exact .records hopen

theorem still_storage {storage : Storage} {trace : List TracedCall} :
    Still s c { c with storage, trace } := ⟨rfl, rfl⟩

theorem passes_recordInsert (hopen : p → (c.tx s).isOpen = true) :
    Passes p s c [] (c.recordInsert s store row).2 := by
  unfold recordInsert
  split
  next => exact still_storage.passes
  next => exact passes_pushAction (a := .insert s (c.tx s).actionAt store row) rfl hopen

theorem passes_recordDelete (hopen : p → (c.tx s).isOpen = true) :
    Passes p s c [] (c.recordDelete s store row).2 := by
  unfold recordDelete
  split
  next => exact passes_nothing
  next =>
    split
    next => exact still_storage.passes
    next =>
      exact passes_pushAction (a := .delete s (c.tx s).actionAt store row
        ((c.tx s).insertedHere row.id)) rfl hopen

end Rows

/-- The times of a session whose transaction has ended. -/
theorem times_closeTx (h : (c'.tx s).beganAt = (c.tx s).beganAt) :
    ((c'.closeTx s now).tx s).times = (c.tx s).times.ended now := by
  rw [closeTx, tx_updateTx_self, TxTimes.ended]
  simp [SessionTx.times, SessionTx.clear, h]

theorem beganAt_endTx {rows : List RowId} : ((c.endTx s rows).tx s).beganAt = (c.tx s).beganAt :=
  congrArg TxTimes.beganAt still_endTx.times

theorem clock_endTx {rows : List RowId} : (c.endTx s rows).clock = c.clock :=
  (still_endTx (s := s)).clock

theorem clock_closeTx : (c.closeTx s now).clock = c.clock := rfl

theorem clock_signal {f : Signals → Signals} : (c.signal s f).clock = c.clock := rfl

/-- A rollback takes one time. -/
theorem rollback_times : (c.rollback s).clock = c.tick.2.clock ∧
    ((c.rollback s).tx s).times = (c.tx s).times.ended c.tick.1 := by
  obtain ⟨c₁, hc₁⟩ : ∃ c₁, c₁ = (c.signal s fun g => g.clearAbort.takeRedo.2).tick.2 := ⟨_, rfl⟩
  obtain ⟨rows, c₂, hundo⟩ : ∃ rows c₂, c₁.undoTo s 0 c.tick.1 = (rows, c₂) := ⟨_, _, rfl⟩
  have hend : c.rollback s = ((c₂.endTx s rows).signal s .release).closeTx s c.tick.1 := by
    have hrows : (c₁.undoTo s 0 c.tick.1).1 = rows := congrArg Prod.fst hundo
    have hafter : (c₁.undoTo s 0 c.tick.1).2 = c₂ := congrArg Prod.snd hundo
    rw [← hrows, ← hafter, hc₁]
    rfl
  have hbegan : (c₂.tx s).beganAt = (c.tx s).beganAt := by
    have hafter : c₂ = (c₁.undoTo s 0 c.tick.1).2 := congrArg Prod.snd hundo.symm
    have hundone : (c₂.tx s).beganAt = (c₁.tx s).beganAt := by
      rw [hafter]
      exact congrArg TxTimes.beganAt times_undoTo
    have hsignal : (c₁.tx s).beganAt = (c.tx s).beganAt := by
      rw [hc₁]
      show ((c.signal s fun g => g.clearAbort.takeRedo.2).tx s).beganAt = (c.tx s).beganAt
      rw [tx_signal_self]
    exact hundone.trans hsignal
  have hclock : c₂.clock = c.tick.2.clock := by
    have hafter : c₂ = (c₁.undoTo s 0 c.tick.1).2 := congrArg Prod.snd hundo.symm
    rw [hafter, hc₁]
    rfl
  rw [hend]
  refine ⟨?_, times_closeTx ?_⟩
  · rw [clock_closeTx, clock_signal, clock_endTx, hclock]
  · rw [tx_signal_self]
    exact beganAt_endTx.trans hbegan

theorem passes_rollback : Passes p s c [c.tick.1] (c.rollback s) := by
  obtain ⟨hclock, htimes⟩ := rollback_times (c := c) (s := s)
  refine passes_ticked hclock ?_
  rw [htimes]
  exact .ends

theorem passes_commit : Passes p s c (c.given (.commit s)) (c.commit s).2 := by
  have hcommits := c.commit_commits s
  generalize c.commitEvent? s = e, (c.commit s).2 = c' at hcommits
  cases hcommits with
  | refused habort =>
    have hnothing : c.given (.commit s) = [] := by simp [Coordinator.given, habort]
    rw [hnothing]
    exact passes_nothing
  | @failed f journal habort hlog =>
    have htwo : c.given (.commit s) = [c.tick.1, c.tick.2.tick.1] := by
      simp [Coordinator.given, commitTime?, habort, hlog]
    obtain ⟨hclock, htimes⟩ := rollback_times (c := { c.tick.2 with journal }) (s := s)
    rw [htwo]
    refine ⟨?_, rfl, ?_⟩
    · rw [hclock]
      rfl
    · rw [htimes]
      exact .fails
  | @done journal habort hlog =>
    have hone : c.given (.commit s) = [c.tick.1] := by
      simp [Coordinator.given, commitTime?, habort, hlog]
    generalize (finalizeAll c.tick.1 (c.tx s).actions c.storage).2 = storage
    have hbegan : ((({ c.tick.2 with journal }.withCalls s storage).endTx s
        (c.tx s).touchedRows).tx s).beganAt = (c.tx s).beganAt := beganAt_endTx
    rw [hone]
    apply passes_ticked
    · rw [clock_closeTx, clock_endTx]
      rfl
    · rw [times_closeTx hbegan]
      exact .ends

theorem passes_unregister : Passes p s c (c.given (.unregister s)) (c.unregister s) := by
  have hleave (c₁ : Coordinator) : Still s c₁
      { c₁.withdraw s with registered := (c₁.withdraw s).registered.erase s } :=
    (still_withdraw (x := s)).trans ⟨rfl, rfl⟩
  unfold Coordinator.given Coordinator.unregister
  dsimp only
  split
  next => exact passes_rollback.still (hleave _)
  next => exact (hleave c).passes

/-- What a call does to the clock and to the times of the session that makes it. -/
theorem passes_call (hcaller : k.caller? = some s) :
    Passes (c.InOrder k) s c (c.given k) (c.perform k) := by
  cases k with
  | register level => cases hcaller
  | change y change => cases hcaller
  | outside storage journal => cases hcaller
  | unregister y => cases hcaller; exact passes_unregister
  | beginTransaction y => cases hcaller; exact passes_beginTransaction
  | beginStatement y r => cases hcaller; exact (beginStatement_begins c s r).still.passes
  | resumeStatement y => cases hcaller; exact passes_resumeStatement
  | cancelWait y => cases hcaller; exact still_cancelWait.passes
  | completeStatement y => cases hcaller; exact still_completeStatement.passes
  | rollbackStatement y => cases hcaller; exact passes_rollbackStatement
  | prepare y => cases hcaller; exact passes_prepare
  | commit y => cases hcaller; exact passes_commit
  | rollback y => cases hcaller; exact passes_rollback
  | rollbackToIndex y i => cases hcaller; exact passes_rollbackToIndex
  | rollbackToSavepoint y name => cases hcaller; exact passes_rollbackToSavepoint
  | recordInsert y store row => cases hcaller; exact passes_recordInsert id
  | recordDelete y store row => cases hcaller; exact passes_recordDelete id

/-- A change of a session state sets and drops savepoints at most. -/
theorem StateChange.apply_elapses (change : StateChange) (tx : SessionTx) :
    tx.times.Elapses p [] (change.apply tx).times := by
  cases change with
  | isolation level =>
    unfold StateChange.apply SessionTx.setIsolation
    dsimp only
    split <;> exact .stays
  | readOnly on =>
    unfold StateChange.apply SessionTx.setReadOnly
    dsimp only
    split <;> exact .stays
  | isolationDefault level => exact .stays
  | readOnlyDefault on => exact .stays
  | savepoint name =>
    refine .saves fun u hu => ?_
    obtain ⟨save, hsave, rfl⟩ := List.mem_map.mp hu
    rcases List.mem_append.mp hsave with hold | hnew
    · refine Or.inr (List.mem_map_of_mem ?_)
      split at hold
      next => exact List.mem_of_mem_eraseIdx hold
      next => exact hold
    · rw [List.mem_singleton.mp hnew]
      exact Or.inl rfl
  | truncateSavepoints length =>
    refine .saves fun u hu => ?_
    obtain ⟨save, hsave, rfl⟩ := List.mem_map.mp hu
    exact Or.inr (List.mem_map_of_mem (List.mem_of_mem_take hsave))
  | raiseAbort => exact .stays
  | requestRedo => exact .stays
  | takeRedo => exact .stays

/-- The times that a call gives to a session: none, if another session makes the call. -/
def givenTo (c : Coordinator) (x : SessionId) (k : CoordinatorCall) : List Timestamp :=
  if k.caller? = some x then c.given k else []

theorem elapses_perform : (c.tx x).times.Elapses (c.InOrder k) (c.givenTo x k)
    ((c.perform k).tx x).times := by
  unfold givenTo
  split
  next hcaller => exact (passes_call hcaller).times
  next hother =>
    cases concerns_perform x c k with
    | own hcaller => exact absurd hcaller hother
    | registers htx =>
      rw [htx]
      exact .starts
    | @changes change htx =>
      rw [htx]
      exact StateChange.apply_elapses change (c.tx x)
    | spares htx =>
      rw [SessionTx.times_of_unlatched htx]
      exact .stays

theorem given_of_nobody (h : k.caller? = none) : c.given k = [] := by
  cases k with
  | register level => rfl
  | change y change => rfl
  | outside storage journal => rfl
  | _ => cases h

/-- The clock moves on by the times that it gives out, and these follow one another. -/
theorem clock_perform : (c.perform k).clock.current = c.clock.current + (c.given k).length ∧
    c.given k = List.range' (c.clock.current + 1) (c.given k).length := by
  cases hcaller : k.caller? with
  | some s =>
    have hpasses : Passes (c.InOrder k) s c (c.given k) (c.perform k) := passes_call hcaller
    exact ⟨hpasses.clock, hpasses.consecutive⟩
  | none =>
    rw [given_of_nobody hcaller]
    refine ⟨?_, rfl⟩
    cases k with
    | register level => rfl
    | change y change => rfl
    | outside storage journal => rfl
    | _ => cases hcaller

theorem times_handsOut : (c.handsOut k).map Prod.snd = c.given k := by
  unfold handsOut
  cases hcaller : k.caller? with
  | some s => simp [Function.comp_def]
  | none => simp [given_of_nobody hcaller]

theorem mem_handsOut : (x, u) ∈ c.handsOut k ↔ u ∈ c.givenTo x k := by
  unfold handsOut givenTo
  cases hcaller : k.caller? with
  | some s =>
    by_cases hx : s = x
    · simp [hx]
    · simp [hx]
  | none => simp

section Runs

variable {calls before during : List CoordinatorCall}

theorem run_cons : c.run (k :: calls) = (c.perform k).run calls := rfl

theorem run_append : c.run (before ++ during) = (c.run before).run during := List.foldl_append

/-- The times that the clock gives out follow one another without a gap. -/
theorem times_handedOut (c : Coordinator) (calls : List CoordinatorCall) :
    (c.handedOut calls).map Prod.snd =
      List.range' (c.clock.current + 1) (c.handedOut calls).length ∧
    (c.run calls).clock.current = c.clock.current + (c.handedOut calls).length := by
  induction calls generalizing c with
  | nil => exact ⟨rfl, rfl⟩
  | cons k rest ih =>
    obtain ⟨hclock, hgiven⟩ := clock_perform (c := c) (k := k)
    obtain ⟨htimes, hafter⟩ := ih (c.perform k)
    have hlength : (c.handsOut k).length = (c.given k).length := by
      rw [← times_handsOut, List.length_map]
    have hnext : c.clock.current + 1 + (c.handsOut k).length = (c.perform k).clock.current + 1 := by
      rw [hlength, hclock, Nat.add_right_comm]
    rw [handedOut, List.length_append, run_cons]
    constructor
    · rw [List.map_append, times_handsOut, htimes, ← List.range'_append_1, hnext, hlength, ← hgiven]
    · rw [hafter, hclock, hlength, Nat.add_assoc]

theorem mem_times_of_mem_handedOut (h : (x, u) ∈ c.handedOut calls) :
    c.clock.current < u ∧ u ≤ (c.run calls).clock.current := by
  obtain ⟨htimes, hclock⟩ := times_handedOut c calls
  have hmem : u ∈ (c.handedOut calls).map Prod.snd := List.mem_map_of_mem h
  rw [htimes, List.mem_range'_1, Nat.add_right_comm] at hmem
  rw [hclock]
  exact ⟨hmem.1, Nat.le_of_lt_succ hmem.2⟩

theorem clock_run_le : c.clock.current ≤ (c.run calls).clock.current := by
  rw [(times_handedOut c calls).2]
  exact Nat.le_add_right _ _

/-- The clock starts before all times that it gives out, and gives out each one after the one before. -/
theorem pairwise_handedOut :
    (c.clock.current :: (c.handedOut calls).map Prod.snd).Pairwise (· < ·) := by
  rw [(times_handedOut c calls).1]
  refine List.pairwise_cons.mpr ⟨fun u hu => ?_, List.pairwise_lt_range'⟩
  exact (List.mem_range'_1.mp hu).1

/-- A session has no times but those that the clock has given out to it. -/
theorem mem_all_run (hu : u ∈ ((c.run calls).tx x).times.all) :
    u = 0 ∨ u ∈ (c.tx x).times.all ∨ (x, u) ∈ c.handedOut calls := by
  induction calls generalizing c with
  | nil => exact Or.inr (Or.inl hu)
  | cons k rest ih =>
    rw [handedOut, List.mem_append, mem_handsOut]
    rcases ih (c := c.perform k) hu with hzero | hbefore | hgiven
    · exact Or.inl hzero
    · rcases elapses_perform.mem_all hbefore with hzero | hold | hnew
      · exact Or.inl hzero
      · exact Or.inr (Or.inl hold)
      · exact Or.inr (Or.inr (Or.inl hnew))
    · exact Or.inr (Or.inr (Or.inr hgiven))

variable {clock : Clock} {storage : Storage} {journal : Journal}

theorem times_started : ((started clock storage journal).tx s).times = .fresh := rfl

theorem mem_all_started (hu : u ∈ (((started clock storage journal).run calls).tx s).times.all) :
    u = 0 ∨ (s, u) ∈ (started clock storage journal).handedOut calls := by
  rcases mem_all_run hu with hzero | hbefore | hgiven
  · exact Or.inl hzero
  · rw [times_started] at hbefore
    simp only [TxTimes.mem_all, TxTimes.fresh, List.not_mem_nil, or_false, or_self] at hbefore
    exact Or.inl hbefore
  · exact Or.inr hgiven

/-- No time in the state of a session is ahead of the clock. -/
theorem mem_all_le (hu : u ∈ (((started clock storage journal).run calls).tx s).times.all) :
    u ≤ ((started clock storage journal).run calls).clock.current := by
  rcases mem_all_started hu with hzero | hgiven
  · rw [hzero]
    exact Nat.zero_le _
  · exact (mem_times_of_mem_handedOut hgiven).2

end Runs

end Coordinator

end LockingDb
