import LockingDb.Proofs.WakeUps

namespace LockingDb

/-- Who asks again for locks that it has changes nobody's locks. -/
theorem LockTable.mode?_acquire_of_holdsAll {l : LockTable} {s x : SessionId} {r : LockRequest}
    {t : TableId} (hall : l.holdsAll s r = true) : (l.acquire s r).2.mode? x t = l.mode? x t := by
  unfold acquire
  rw [if_pos hall]
  exact mode?_withdraw

namespace Coordinator

variable {c c' : Coordinator} {s x : SessionId} {r : LockRequest} {k : CoordinatorCall}

/-- Its own calls leave a session the locks that were granted to it last, or take the mark of the
grant away with them. -/
theorem covered_call (hcaller : k.caller? = some s) (h : c.Covered s) : (c.perform k).Covered s := by
  cases k with
  | register level => cases hcaller
  | change y change => cases hcaller
  | outside storage journal => cases hcaller
  | unregister y => cases hcaller; exact steady_unregister.covered h
  | beginTransaction y => cases hcaller; exact proceeds_beginTransaction.toSteady.covered h
  | beginStatement y r => cases hcaller; exact (beginStatement_begins c s r).covered h
  | resumeStatement y => cases hcaller; exact proceeds_resumeStatement.toSteady.covered h
  | cancelWait y => cases hcaller; exact proceeds_cancelWait.toSteady.covered h
  | completeStatement y => cases hcaller; exact proceeds_completeStatement.toSteady.covered h
  | rollbackStatement y => cases hcaller; exact proceeds_rollbackStatement.toSteady.covered h
  | prepare y => cases hcaller; exact proceeds_prepare.toSteady.covered h
  | commit y => cases hcaller; exact steady_commit.covered h
  | rollback y => cases hcaller; exact steady_rollback.covered h
  | rollbackToIndex y i => cases hcaller; exact proceeds_rollbackToIndex.toSteady.covered h
  | rollbackToSavepoint y name =>
    cases hcaller
    exact proceeds_rollbackToSavepoint.toSteady.covered h
  | recordInsert y store row => cases hcaller; exact proceeds_recordInsert.toSteady.covered h
  | recordDelete y store row => cases hcaller; exact proceeds_recordDelete.toSteady.covered h

theorem covered_register {level : IsolationLevel} (h : c.Covered x) :
    (c.register level).2.Covered x := by
  by_cases hx : x = c.nextSession
  · have hfresh : (c.register level).2.tx x = .fresh c.nextSession level := by
      rw [hx]
      exact tx_setTx_self
    intro r hr
    rw [hfresh] at hr
    cases hr
  · have htx : (c.register level).2.tx x = c.tx x := tx_setTx_of_ne hx
    exact h.of_keeps (by rw [htx]) (.refl x c.locks)

theorem covered_change {change : StateChange} (h : c.Covered x) :
    (c.updateTx s change.apply).Covered x := by
  by_cases hx : x = s
  · subst hx
    refine h.of_keeps ?_ (.refl x c.locks)
    rw [tx_updateTx_self]
    exact (StateChange.apply_keeps change (c.tx x)).1
  · exact (spares_updateTx hx).retains.covered h

theorem covered_perform (h : c.Covered x) : (c.perform k).Covered x := by
  cases hcaller : k.caller? with
  | some s =>
    by_cases hx : x = s
    · subst hx
      exact covered_call hcaller h
    · exact (spares_call hcaller hx).retains.covered h
  | none =>
    cases k with
    | register level => exact covered_register h
    | change y change => exact covered_change h
    | outside storage journal => exact h
    | _ => cases hcaller

theorem covered_run {calls : List CoordinatorCall} (h : c.Covered x) : (c.run calls).Covered x := by
  induction calls generalizing c with
  | nil => exact h
  | cons k rest ih => exact ih (covered_perform h)

theorem covered_started {clock : Clock} {storage : Storage} {journal : Journal} :
    (started clock storage journal).Covered x := covered_empty

theorem Begins.remembers (hb : Begins c s r (.ok .proceed) c') : (c'.tx s).granted = some r := by
  cases hb with
  | again habort hgranted =>
    rw [noted, tx_updateTx_self]
    exact hgranted
  | granted habort hv => rw [tx_updateTx_self]

/-- Whatever calls are made, a session that is told to proceed has every lock that it has asked
for. While the grant is remembered the locks are there: to ask the lock table once more, which is
left out then, would be granted and change no lock. -/
theorem proceed_means_locked (clock : Clock) (storage : Storage) (journal : Journal)
    (calls : List CoordinatorCall) (s : SessionId) (r : LockRequest)
    (hc : c = (started clock storage journal).run calls) :
    ((c.beginStatement s r).1 = .ok .proceed →
      (c.beginStatement s r).2.locks.holdsAll s r = true ∧
        ((c.beginStatement s r).2.tx s).granted = some r) ∧
    ((c.tx s).granted = some r →
      c.locks.holdsAll s r = true ∧ (c.locks.acquire s r).1 = .granted ∧
        ∀ x t, (c.locks.acquire s r).2.mode? x t = c.locks.mode? x t) := by
  have hcovered : c.Covered s := hc ▸ covered_run covered_started
  constructor
  · intro hproceed
    have hb := beginStatement_begins c s r
    rw [hproceed] at hb
    exact ⟨hb.holdsAll hcovered, hb.remembers⟩
  · intro hgranted
    have hall := hcovered r hgranted
    exact ⟨hall, LockTable.acquire_of_holdsAll hall, fun _ _ =>
      LockTable.mode?_acquire_of_holdsAll hall⟩

/-- Session 1 gives its read lock back when its statement ends, which grants session 2; this goes on
twice, the second time because its grant is remembered. -/
theorem proceed_means_locked_promoted :
    (((started .zero .empty .empty).run [.register .readCommitted, .register .serializable,
      .beginStatement 1 (.read [1]), .resumeStatement 1, .beginStatement 2 (.write [1]),
      .completeStatement 1, .beginStatement 2 (.write [1])]).tx 2).granted = some (.write [1]) ∧
    ((started .zero .empty .empty).run [.register .readCommitted, .register .serializable,
      .beginStatement 1 (.read [1]), .resumeStatement 1, .beginStatement 2 (.write [1]),
      .completeStatement 1, .beginStatement 2 (.write [1])]).locks.holdsAll 2 (.write [1]) = true ∧
    (((started .zero .empty .empty).run [.register .readCommitted, .register .serializable,
      .beginStatement 1 (.read [1]), .resumeStatement 1, .beginStatement 2 (.write [1]),
      .completeStatement 1, .beginStatement 2 (.write [1])]).beginStatement 2
        (.write [1])).2.locks.holdsAll 2 (.write [1]) = true := by
  obtain ⟨hproceed, hremembered⟩ := proceed_means_locked .zero .empty .empty
    [.register .readCommitted, .register .serializable, .beginStatement 1 (.read [1]),
      .resumeStatement 1, .beginStatement 2 (.write [1]), .completeStatement 1,
      .beginStatement 2 (.write [1])] 2 (.write [1]) rfl
  exact ⟨by decide, (hremembered (by decide)).1, (hproceed (by decide)).1⟩

end Coordinator

end LockingDb
