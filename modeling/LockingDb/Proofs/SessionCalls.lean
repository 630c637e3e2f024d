import LockingDb.Proofs.SessionSteps

namespace LockingDb

namespace Session

open Coordinator

variable {s : SessionId} {c : Coordinator} {x x' : Session}

theorem locked_close {c₁ : Coordinator} (hidle : x.isIdle = true) :
    ((x.close s c).1).Locked s c₁ := by
  have hactivity : (x.close s c).1.activity = .idle := by
    unfold isIdle at hidle
    split at hidle
    next hactivity =>
      unfold close
      split <;> exact hactivity
    next => cases hidle
  simp only [Locked, hactivity]

theorem locked_finishWith (outcome : Except Failure Unit) : (x.finishWith outcome).Locked s c := by
  cases outcome <;> trivial

theorem readsHeld_of_isStrict (h : (c.tx s).isolation.IsStrict) : c.ReadsHeld s := by
  unfold ReadsHeld
  rcases h with hlevel | hlevel
  · rw [hlevel]
    rfl
  · rw [hlevel]
    rfl

theorem keepsGuards_setTx {tx : SessionTx} (htx : (c.tx s).Continues tx) :
    KeepsGuards s c (c.setTx s tx) := by
  have hp : Proceeds s c (c.setTx s tx) := by
    refine proceeds_of_continues rfl ?_
    rw [tx_setTx_self]
    exact htx
  exact hp.toRetains.keepsGuards

theorem advances_setTx {tx : SessionTx} (hgranted : tx.granted = (c.tx s).granted)
    (hkeeps : KeepsGuards s c (c.setTx s tx)) (hlocked : x'.Locked s (c.setTx s tx)) :
    Advances s c none x' (c.setTx s tx) := by
  refine ⟨fun y hy => spares_setTx hy, fun hcovered => hcovered.of_keeps ?_ (.refl s c.locks),
    hlocked, .goesOn hkeeps⟩
  rw [tx_setTx_self]
  exact hgranted

theorem close_advances (hlocked : ∀ c', x'.Locked s c') :
    Advances s c (x.callEvent? s c .close) x' (x.close s c).2 := by
  dsimp only [callEvent?, close]
  split
  next => exact advances_stay (hlocked c)
  next => exact advances_unregister (hlocked _)

theorem settle_advances {outcome : Except Failure SessionTx}
    (hset : ∀ tx, outcome = .ok tx → Advances s c none (x.finish (.ok .done)) (c.setTx s tx)) :
    Advances s c none (x.settle s c outcome).1 (x.settle s c outcome).2 := by
  cases outcome with
  | error f => exact advances_stay trivial
  | ok tx => exact hset tx rfl

/-- A rollback to a savepoint is written down if it succeeds. -/
theorem undone_advances {undone : Except Failure Unit × Coordinator} {sql : String}
    (hothers : ∀ y, y ≠ s → Spares y c undone.2) (hp : Proceeds s c undone.2) :
    Advances s c none
      (match undone with
        | (.error f, c) => (x.finish (.error f), c)
        | (.ok (), c) => (x.finish (.ok .done), c.noteStatement s sql)).1
      (match undone with
        | (.error f, c) => (x.finish (.error f), c)
        | (.ok (), c) => (x.finish (.ok .done), c.noteStatement s sql)).2 := by
  obtain ⟨answer, c₁⟩ := undone
  cases answer with
  | error f => exact advances_of_retains hothers hp.toRetains trivial
  | ok done =>
    have hnoted : Proceeds s c (c₁.noteStatement s sql) := hp.trans proceeds_noteStatement
    exact advances_of_retains (fun y hy => (hothers y hy).trans spares_noteStatement)
      hnoted.toRetains trivial

theorem callOpen_advances {k : SessionCall}
    (hk : ∀ statement, k = .execute statement → c.ReadsHeld s) :
    Advances s c (x.callEvent? s c k) (x.callOpen s c k).1 (x.callOpen s c k).2 := by
  cases k with
  | begin =>
    exact advances_of_retains (fun _ hy => spares_beginTransaction hy)
      proceeds_beginTransaction.toRetains trivial
  | commit => exact advances_stay trivial
  | prepare =>
    have hadvances (x' : Session) (hlocked : x'.Locked s (c.prepare s).2) :=
      advances_of_retains (fun _ hy => spares_prepare hy) proceeds_prepare.toRetains hlocked
    dsimp only [callEvent?, callOpen]
    generalize c.prepare s = prepared at hadvances
    obtain ⟨answer, c₁⟩ := prepared
    split
    next heq =>
      cases heq
      exact hadvances _ trivial
    next heq =>
      cases heq
      exact hadvances _ trivial
  | rollback =>
    dsimp only [callEvent?, callOpen]
    split
    next =>
      exact advances_of_retains (fun _ _ => spares_noteStatement)
        proceeds_noteStatement.toRetains trivial
    next => exact advances_stay trivial
  | savepoint name =>
    have hset : Proceeds s c (c.updateTx s (·.setSavepoint name)) :=
      proceeds_updateTx ⟨rfl, id, rfl, id⟩
    exact advances_of_retains 
      (fun _ hy => (spares_updateTx hy).trans spares_noteStatement)
      (hset.trans proceeds_noteStatement).toRetains trivial
  | rollbackTo name =>
    exact undone_advances (fun y hy => spares_rollbackToSavepoint hy) proceeds_rollbackToSavepoint
  | rollbackToFirst =>
    exact undone_advances (fun y hy => spares_rollbackToIndex hy) proceeds_rollbackToIndex
  | release name =>
    dsimp only [callEvent?, callOpen]
    split
    next => exact advances_stay trivial
    next i _ =>
      have hset : Proceeds s c (c.updateTx s (·.truncateSavepoints i)) :=
        proceeds_updateTx ⟨rfl, id, rfl, id⟩
      exact advances_of_retains (fun _ hy => spares_setTx hy) hset.toRetains trivial
  | setAutocommit on =>
    dsimp only [callEvent?, callOpen]
    split <;> exact advances_stay trivial
  | setIsolation level =>
    refine settle_advances fun tx htx => ?_
    unfold SessionTx.setIsolation at htx
    split at htx
    next => cases htx
    next hclosed =>
      cases htx
      exact advances_setTx rfl (keepsGuards_of_closed (Bool.eq_false_iff.mpr hclosed)) trivial
  | setIsolationDefault level =>
    refine advances_setTx rfl ?_ trivial
    by_cases hopen : (c.tx s).isOpen = true
    · refine keepsGuards_setTx ⟨rfl, id, ?_, id⟩
      exact if_pos hopen
    · exact keepsGuards_of_closed (Bool.eq_false_iff.mpr hopen)
  | setReadOnly on =>
    refine settle_advances fun tx htx => ?_
    unfold SessionTx.setReadOnly at htx
    split at htx
    next => cases htx
    next =>
      cases htx
      exact advances_setTx rfl (keepsGuards_setTx ⟨rfl, id, rfl, id⟩) trivial
  | setReadOnlyDefault on =>
    exact advances_setTx rfl (keepsGuards_setTx ⟨rfl, id, rfl, id⟩) trivial
  | setLockWaitTimeout timeout => exact advances_stay trivial
  | setControl mode => exact advances_stay (locked_finishWith _)
  | execute statement =>
    dsimp only [callEvent?, callOpen]
    split
    next => exact advances_stay trivial
    next => exact advances_stay (hk statement rfl)
  | close => exact close_advances fun _ => trivial

/-- A closed session answers each call at once, and leaves everything as it is. -/
theorem call_of_closed (hclosed : x.closed = true) (k : SessionCall) : ∃ timeout reply, x.call s c k =
    (Session.finish { x with runs := 0, lockWaitTimeout := timeout } reply, c) := by
  cases k with
  | close => exact ⟨x.lockWaitTimeout, .ok .done, by simp [call, callOpen, close, hclosed, finish]⟩
  | setLockWaitTimeout timeout => exact ⟨timeout, .ok .done, by simp [call, callOpen, finish]⟩
  | _ => exact ⟨x.lockWaitTimeout, .error .sessionClosed, by simp [call, hclosed, finish]⟩

/-- On an open session a call begins anew, without the reply to the last one. -/
theorem call_of_open (hopen : x.closed = false) (k : SessionCall) :
    x.call s c k = ({ x with reply := none, runs := 0 } : Session).callOpen s c k := by
  unfold call
  rw [hopen]
  rfl

theorem call_advances {k : SessionCall}
    (hk : ∀ statement, k = .execute statement → c.ReadsHeld s) :
    Advances s c (x.callEvent? s c k) (x.call s c k).1 (x.call s c k).2 := by
  have hopened : Advances s c (x.callEvent? s c k)
      (({ x with reply := none, runs := 0 } : Session).callOpen s c k).1
      (({ x with reply := none, runs := 0 } : Session).callOpen s c k).2 :=
    callOpen_advances (x := { x with reply := none, runs := 0 }) hk
  unfold call
  dsimp only
  split
  next hclosed =>
    split
    next => exact hopened
    next => exact hopened
    next _ hother =>
      have hnone : x.callEvent? s c k = none := by
        unfold callEvent?
        split
        next => exact absurd rfl hother
        next => rfl
      rw [hnone]
      exact advances_stay trivial
  next => exact hopened

end Session

end LockingDb
