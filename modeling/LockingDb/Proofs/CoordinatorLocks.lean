import LockingDb.Proofs.CoordinatorCalls
import LockingDb.Proofs.LedgerCommit

namespace LockingDb

namespace LockTable

variable {l l' : LockTable}

/-- Some calls lead from one lock table to the other. -/
def Becomes (l l' : LockTable) : Prop := ∃ steps : List LockStep, steps.foldl perform l = l'

theorem Becomes.refl (l : LockTable) : l.Becomes l := ⟨[], rfl⟩

theorem Becomes.step (h : l.Becomes l') (k : LockStep) : l.Becomes (l'.perform k) := by
  obtain ⟨steps, hsteps⟩ := h
  refine ⟨steps ++ [k], ?_⟩
  rw [List.foldl_concat, hsteps]

end LockTable

namespace Coordinator

variable {c c' : Coordinator} {s : SessionId} {r : LockRequest} {rows : List RowId}
  {answer : Except Failure LockAnswer} {l : LockTable}

theorem becomes_promote (h : l.Becomes c.locks) : l.Becomes c.promote.locks := by
  rw [promote_locks]
  exact h.step .promote

theorem becomes_withdraw (h : l.Becomes c.locks) : l.Becomes (c.withdraw s).locks := by
  have hleft : l.Becomes (c.locks.withdraw s).2 := h.step (.withdraw s)
  unfold withdraw
  dsimp only
  split
  next => exact becomes_promote hleft
  next => exact hleft

theorem becomes_releaseLocks (h : l.Becomes c.locks) : l.Becomes (c.releaseLocks s).locks := by
  have hless : l.Becomes ((c.locks.releaseAll s).2.withdraw s).2 :=
    (h.step (.releaseAll s)).step (.withdraw s)
  unfold releaseLocks
  dsimp only
  split
  next => exact becomes_promote hless
  next => exact hless

theorem becomes_endTx (h : l.Becomes c.locks) : l.Becomes (c.endTx s rows).locks := by
  unfold endTx
  apply becomes_releaseLocks
  split <;> exact h

theorem becomes_dropReads {tables : List TableId} (h : l.Becomes c.locks) :
    l.Becomes (c.dropReads s tables).locks := by
  have hless : l.Becomes (c.locks.releaseShared s tables).2 := h.step (.releaseShared s tables)
  unfold dropReads
  dsimp only
  split
  next => exact becomes_promote hless
  next => exact hless

theorem becomes_endStatement (h : l.Becomes c.locks) : l.Becomes (c.endStatement s).locks := by
  unfold endStatement
  dsimp only
  split
  next => exact h
  next =>
    split
    next => exact h
    next r _ =>
      split
      next => exact h
      next =>
        have hless : l.Becomes ((c.setTx s { c.tx s with request := none }).dropReads s
            r.reads.toList).locks := becomes_dropReads h
        exact hless

theorem Begins.becomes (hb : Begins c s r answer c') (h : l.Becomes c.locks) : l.Becomes c'.locks := by
  have hasked : l.Becomes (c.locks.acquire s r).2 := h.step (.acquire s r)
  cases hb with
  | aborted habort => exact h
  | again habort hgranted => exact h
  | granted habort hv => exact hasked
  | waits habort hv => exact hasked
  | refused habort hv =>
    rw [signal_locks]
    exact becomes_promote hasked

theorem becomes_rollback (h : l.Becomes c.locks) : l.Becomes (c.rollback s).locks := by
  unfold rollback
  dsimp only
  rw [closeTx, updateTx_locks, signal_locks]
  exact becomes_endTx h

theorem becomes_commit (h : l.Becomes c.locks) : l.Becomes (c.commit s).2.locks := by
  have hcommits := c.commit_commits s
  generalize c.commitEvent? s = e, (c.commit s).2 = c' at hcommits
  cases hcommits with
  | refused habort => exact h
  | failed habort hlog => exact becomes_rollback h
  | done habort hlog =>
    rw [closeTx, updateTx_locks]
    exact becomes_endTx h

theorem becomes_unregister (h : l.Becomes c.locks) : l.Becomes (c.unregister s).locks := by
  unfold unregister
  dsimp only
  apply becomes_withdraw
  split
  next => exact becomes_rollback h
  next => exact h

/-- The locks change by calls on the lock table alone. -/
theorem becomes_perform (h : l.Becomes c.locks) (k : CoordinatorCall) :
    l.Becomes (c.perform k).locks := by
  cases k with
  | register level => exact h
  | unregister s => exact becomes_unregister h
  | beginTransaction s =>
    rw [perform, beginTransaction]
    split <;> exact h
  | beginStatement s r => exact (beginStatement_begins c s r).becomes h
  | resumeStatement s =>
    rw [perform, resumeStatement]
    dsimp only
    split
    next => exact h
    next => split <;> exact h
  | cancelWait s => exact becomes_withdraw h
  | completeStatement s => exact becomes_endStatement h
  | rollbackStatement s => exact becomes_endStatement h
  | prepare s =>
    rw [perform, prepare]
    split <;> exact h
  | commit s => exact becomes_commit h
  | rollback s => exact becomes_rollback h
  | rollbackToIndex s i =>
    rw [perform, rollbackToIndex]
    split <;> exact h
  | rollbackToSavepoint s name =>
    rw [perform, rollbackToSavepoint]
    split
    next => exact h
    next =>
      unfold rollbackToIndex
      split <;> exact h
  | recordInsert s store row =>
    rw [perform, recordInsert]
    split <;> exact h
  | recordDelete s store row =>
    rw [perform, recordDelete]
    split
    next => exact h
    next => split <;> exact h
  | change s k => exact h
  | outside storage journal => exact h

theorem becomes_run (h : l.Becomes c.locks) (calls : List CoordinatorCall) :
    l.Becomes (c.run calls).locks :=
  List.foldlRecOn (motive := fun c : Coordinator => l.Becomes c.locks) _ _ h
    fun _ hc k _ => becomes_perform hc k

/-- A coordinator has the locks of a lock table after some calls, so what holds of all these lock
tables holds of its locks. -/
theorem locks_run (clock : Clock) (storage : Storage) (journal : Journal)
    (calls : List CoordinatorCall) : ∃ steps : List LockStep,
      ((started clock storage journal).run calls).locks = LockTable.run steps := by
  have hstart : LockTable.empty.Becomes (started clock storage journal).locks := .refl _
  obtain ⟨steps, hsteps⟩ := becomes_run hstart calls
  exact ⟨steps, hsteps.symm⟩

end Coordinator

end LockingDb
